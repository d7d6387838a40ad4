import Mathlib.Data.List.Induction
import NodeFormula.Expr.Evaluate
import NodeFormula.Proofs.Expr.CallForm
/-!
# NodeFormula — an expression and its call form mean the same

Each operator becomes a call where it stands, so the call form has the depth, the span and the
variables of the expression, and under all variables the same value or the same error. Only an
operator without a function stands in the way, and the first one is named (`StopsAt`). The
functions of the call form are those noted on the way, each when its operands have been rewritten
(`Expr.callFormNoting`). `callForm_preserves` puts this together.
-/

namespace NodeFormula

namespace Expr

/-! ## Notions -/

mutual

/-- The nodes of a tree, children before parents and children from left to right. -/
def postorder : Expr → List Expr
  | number s v t => [number s v t]
  | ident s n => [ident s n]
  | binary s op l r => l.postorder ++ r.postorder ++ [binary s op l r]
  | unary s op x => x.postorder ++ [unary s op x]
  | call s f args => postorderAll args ++ [call s f args]
  | tuple s items => postorderAll items ++ [tuple s items]

/-- The nodes of a list of trees. -/
def postorderAll : List Expr → List Expr
  | [] => []
  | e :: es => e.postorder ++ postorderAll es

end

/-- The function that a node calls. -/
def called? : Expr → Option String
  | call _ f _ => some f
  | _ => none

/-- The symbol of an operator that no function stands behind. -/
def refused? : Expr → Option String
  | binary _ op .. => if op.function?.isNone then some op.symbol else none
  | unary _ op _ => if op.function?.isNone then some op.symbol else none
  | _ => none

/-- Notes a name behind the others, if it has not been noted. -/
def note (names : List String) (f : String) : List String :=
  if f ∈ names then names else names ++ [f]

mutual

/-- The call form, and the names noted so far with those of the functions that it calls: each
is noted once its operands have been rewritten. -/
def callFormNoting : Expr → List String → Except LoweringError (Expr × List String)
  | number s v t, names => .ok (number s v t, names)
  | ident s n, names => .ok (ident s n, names)
  | binary s op l r, names => do
    let f ← operatorFunction op.symbol op.function?
    let (l, names) ← l.callFormNoting names
    let (r, names) ← r.callFormNoting names
    return (call s f [l, r], note names f)
  | unary s op x, names => do
    let f ← operatorFunction op.symbol op.function?
    let (x, names) ← x.callFormNoting names
    return (call s f [x], note names f)
  | call s f args, names => do
    let (args, names) ← callFormNotingAll args names
    return (call s f args, note names f)
  | tuple s items, names => do
    let (items, names) ← callFormNotingAll items names
    return (tuple s items, names)

/-- The call forms of a list, with the names noted on the way. -/
def callFormNotingAll : List Expr → List String → Except LoweringError (List Expr × List String)
  | [], names => .ok ([], names)
  | e :: es, names => do
    let (e, names) ← e.callFormNoting names
    let (es, names) ← callFormNotingAll es names
    return (e :: es, names)

end

/-! ## What stands in the way -/

/-- **A result of rewriting nodes in order**: the first operator without a function stops it. -/
def StopsAt {α : Type} (nodes : List Expr) (r : Except LoweringError α) : Prop :=
  match nodes.findSome? refused? with
  | some symbol => r = .error (.unsupportedOperator symbol)
  | none => ∃ a, r = .ok a

namespace StopsAt

variable {α β : Type} {ms ns : List Expr} {r : Except LoweringError α}

theorem bind {f : α → Except LoweringError β} (hr : StopsAt ms r) (hf : ∀ a, StopsAt ns (f a)) :
    StopsAt (ms ++ ns) (r >>= f) := by
  rw [StopsAt] at hr ⊢
  rw [List.findSome?_append]
  cases hms : ms.findSome? refused? with
  | some symbol =>
    rw [hms] at hr
    rw [hr]
    rfl
  | none =>
    rw [hms] at hr
    obtain ⟨a, rfl⟩ := hr
    exact hf a

theorem ok (a : α) : StopsAt [] (.ok a) := ⟨a, rfl⟩

theorem map {f : α → β} (hr : StopsAt ms r) : StopsAt ms (r >>= fun a => .ok (f a)) := by
  have hbind := hr.bind fun a => StopsAt.ok (f a)
  rwa [List.append_nil] at hbind

theorem operator {n : Expr} {symbol : String} {function? : Option String}
    (hn : n.refused? = if function?.isNone then some symbol else none) :
    StopsAt [n] (operatorFunction symbol function?) := by
  rw [StopsAt, List.findSome?_cons, hn]
  cases function? with
  | none => rfl
  | some f => exact ⟨f, rfl⟩

/-- A node that is no operator stands in nobody's way. -/
theorem skip {n : Expr} (hn : n.refused? = none) (h : StopsAt ns r) : StopsAt (n :: ns) r := by
  rw [StopsAt, List.findSome?_cons, hn]
  exact h

end StopsAt

mutual

theorem stopsAt_callForm : ∀ e : Expr, StopsAt e.preorder e.callForm
  | number .. => (StopsAt.ok _).skip rfl
  | ident .. => (StopsAt.ok _).skip rfl
  | binary _ op l r => by
    rw [callForm, preorder]
    exact (StopsAt.operator rfl).bind fun f =>
      (stopsAt_callForm l).bind fun l' => (stopsAt_callForm r).map
  | unary _ op x => by
    rw [callForm, preorder]
    exact (StopsAt.operator rfl).bind fun f => (stopsAt_callForm x).map
  | call _ _ args => by
    rw [callForm, preorder]
    exact (stopsAt_callFormAll args).map.skip rfl
  | tuple _ items => by
    rw [callForm, preorder]
    exact (stopsAt_callFormAll items).map.skip rfl

theorem stopsAt_callFormAll : ∀ es : List Expr, StopsAt (preorderAll es) (callFormAll es)
  | [] => .ok _
  | e :: es => by
    rw [callFormAll, preorderAll]
    exact (stopsAt_callForm e).bind fun e' => (stopsAt_callFormAll es).map

end

/-- **An expression has no call form exactly where an operator has no function**, and the first
such operator is named. -/
theorem callForm_eq_error {e : Expr} {err : LoweringError} :
    e.callForm = .error err ↔
      ∃ symbol, e.preorder.findSome? refused? = some symbol ∧ err = .unsupportedOperator symbol := by
  have hstops := stopsAt_callForm e
  rw [StopsAt] at hstops
  cases hfind : e.preorder.findSome? refused? with
  | some symbol =>
    rw [hfind] at hstops
    rw [hstops]
    simp [eq_comm]
  | none =>
    rw [hfind] at hstops
    obtain ⟨e', he'⟩ := hstops
    rw [he']
    simp

/-! ## What stays -/

mutual

theorem Rewrites.depth_eq : ∀ {e e' : Expr}, Rewrites e e' → e'.depth = e.depth
  | _, _, .number .. => rfl
  | _, _, .ident .. => rfl
  | _, _, .binary _ _ hl hr => by
    simp only [depth, depthAll, hl.depth_eq, hr.depth_eq, Nat.max_zero]
  | _, _, .unary _ _ hx => by
    simp only [depth, depthAll, hx.depth_eq, Nat.max_zero]
  | _, _, .call _ _ hargs => by rw [depth, depth, hargs.depthAll_eq]
  | _, _, .tuple _ hitems => by rw [depth, depth, hitems.depthAll_eq]

theorem RewritesAll.depthAll_eq : ∀ {es es' : List Expr}, RewritesAll es es' →
    depthAll es' = depthAll es
  | _, _, .nil => rfl
  | _, _, .cons he hes => by rw [depthAll, depthAll, he.depth_eq, hes.depthAll_eq]

end

theorem Rewrites.span_eq {e e' : Expr} (h : Rewrites e e') : e'.span = e.span := by
  cases h <;> rfl

mutual

/-- The variables stand in the same order. -/
theorem Rewrites.variables_eq : ∀ {e e' : Expr}, Rewrites e e' →
    e'.preorder.filterMap ident? = e.preorder.filterMap ident?
  | _, _, .number .. => rfl
  | _, _, .ident .. => rfl
  | _, _, .binary _ _ hl hr => by
    simp [preorder, preorderAll, List.filterMap_cons, ident?, hl.variables_eq, hr.variables_eq]
  | _, _, .unary _ _ hx => by
    simp [preorder, preorderAll, List.filterMap_cons, ident?, hx.variables_eq]
  | _, _, .call _ _ hargs => by simp [preorder, List.filterMap_cons, ident?, hargs.variables_eq]
  | _, _, .tuple _ hitems => by simp [preorder, List.filterMap_cons, ident?, hitems.variables_eq]

theorem RewritesAll.variables_eq : ∀ {es es' : List Expr}, RewritesAll es es' →
    (preorderAll es').filterMap ident? = (preorderAll es).filterMap ident?
  | _, _, .nil => rfl
  | _, _, .cons he hes => by simp [preorderAll, he.variables_eq, hes.variables_eq]

end

section

variable (vars : String → Option Float)

mutual

/-- **The call form has the value of the expression**, or it fails as the expression does. -/
theorem Rewrites.evaluate_eq : ∀ {e e' : Expr}, Rewrites e e' →
    e'.evaluate vars = e.evaluate vars
  | _, _, .number .. => rfl
  | _, _, .ident .. => rfl
  | _, _, .binary (l := l) (r := r) _ hf hl hr => by
    simp only [evaluate, evaluateAll, operator, hf, hl.evaluate_eq, hr.evaluate_eq]
    cases l.evaluate vars <;> cases r.evaluate vars <;> rfl
  | _, _, .unary (x := x) _ hf hx => by
    simp only [evaluate, evaluateAll, operator, hf, hx.evaluate_eq]
    cases x.evaluate vars <;> rfl
  | _, _, .call _ _ hargs => by rw [evaluate, evaluate, hargs.evaluateAll_eq]
  | _, _, .tuple .. => by rw [evaluate, evaluate]

theorem RewritesAll.evaluateAll_eq : ∀ {es es' : List Expr}, RewritesAll es es' →
    evaluateAll vars es' = evaluateAll vars es
  | _, _, .nil => rfl
  | _, _, .cons he hes => by rw [evaluateAll, evaluateAll, he.evaluate_eq, hes.evaluateAll_eq]

end

end

/-! ## The functions that are called -/

mutual

/-- The calls are listed children before parents. -/
theorem Rewrites.calls_eq : ∀ {e e' : Expr}, Rewrites e e' →
    e'.calls = e'.postorder.filterMap called?
  | _, _, .number .. => rfl
  | _, _, .ident .. => rfl
  | _, _, .binary _ _ hl hr => by
    simp [calls, callsAll, postorder, postorderAll, called?, hl.calls_eq, hr.calls_eq]
  | _, _, .unary _ _ hx => by
    simp [calls, callsAll, postorder, postorderAll, called?, hx.calls_eq]
  | _, _, .call _ _ hargs => by simp [calls, postorder, called?, hargs.callsAll_eq]
  | _, _, .tuple _ hitems => by simp [calls, postorder, called?, hitems.callsAll_eq]

theorem RewritesAll.callsAll_eq : ∀ {es es' : List Expr}, RewritesAll es es' →
    callsAll es' = (postorderAll es').filterMap called?
  | _, _, .nil => rfl
  | _, _, .cons he hes => by simp [callsAll, postorderAll, he.calls_eq, hes.callsAll_eq]

end

/-- Noting names one after the other keeps the first of equal ones. -/
theorem foldl_note (names : List String) : names.foldl note [] = names.eraseDups := by
  induction names using List.reverseRecOn with
  | nil => rfl
  | append_singleton names f ih =>
    rw [List.foldl_append, ih, List.foldl_cons, List.foldl_nil, note, List.eraseDups_append]
    by_cases h : f ∈ names
    · simp [h, List.removeAll]
    · simp [h, List.removeAll, List.eraseDups_cons]

mutual

/-- **What is noted on the way are the calls of the call form.** -/
theorem callFormNoting_eq : ∀ (e : Expr) (names : List String),
    e.callFormNoting names = e.callForm.map fun e' => (e', e'.calls.foldl note names)
  | number .., _ => rfl
  | ident .., _ => rfl
  | binary _ op l r, names => by
    rw [callFormNoting, callForm, callFormNoting_eq l names]
    cases operatorFunction op.symbol op.function? with
    | error err => rfl
    | ok f =>
      cases l.callForm with
      | error err => rfl
      | ok l' =>
        simp only [bind, Except.bind, Except.map, callFormNoting_eq r]
        cases r.callForm with
        | error err => rfl
        | ok r' => simp [calls, callsAll, pure, Except.pure]
  | unary _ op x, names => by
    rw [callFormNoting, callForm, callFormNoting_eq x names]
    cases operatorFunction op.symbol op.function? with
    | error err => rfl
    | ok f =>
      cases x.callForm with
      | error err => rfl
      | ok x' => simp [bind, Except.bind, Except.map, calls, callsAll, pure, Except.pure]
  | call _ f args, names => by
    rw [callFormNoting, callForm, callFormNotingAll_eq args names]
    cases callFormAll args with
    | error err => rfl
    | ok args' => simp [bind, Except.bind, Except.map, calls, pure, Except.pure]
  | tuple _ items, names => by
    rw [callFormNoting, callForm, callFormNotingAll_eq items names]
    cases callFormAll items <;> rfl

theorem callFormNotingAll_eq : ∀ (es : List Expr) (names : List String),
    callFormNotingAll es names = (callFormAll es).map fun es' => (es', (callsAll es').foldl note names)
  | [], _ => rfl
  | e :: es, names => by
    rw [callFormNotingAll, callFormAll, callFormNoting_eq e names]
    cases e.callForm with
    | error err => rfl
    | ok e' =>
      simp only [bind, Except.bind, Except.map, callFormNotingAll_eq es]
      cases callFormAll es with
      | error err => rfl
      | ok es' => simp [callsAll, pure, Except.pure]

end

/-! ## The whole expression -/

/-- **An expression and its call form mean the same.** There is no call form exactly if an
operator has no function, and the first such operator is named, parents before children. The
functions noted on the way are those of the call form. The call form has no operators; its depth,
its span and its variables in order are those of the expression, under all variables it has the
same value or fails with the same error, and its functions are the ones it calls, each once, in
the order of their first calls, children before parents. -/
theorem callForm_preserves (e : Expr) :
    (∀ err, e.callForm = .error err ↔
      ∃ symbol, e.preorder.findSome? refused? = some symbol ∧ err = .unsupportedOperator symbol) ∧
    e.callFormNoting [] = e.callForm.map (fun e' => (e', e'.functions)) ∧
    ∀ e', e.callForm = .ok e' →
      e'.isCallForm = true ∧ e'.depth = e.depth ∧ e'.span = e.span ∧
      e'.identifiers = e.identifiers ∧ (∀ vars, e'.evaluate vars = e.evaluate vars) ∧
      e'.functions = (e'.postorder.filterMap called?).eraseDups := by
  refine ⟨fun err => callForm_eq_error, ?_, fun e' h => ?_⟩
  · simp only [callFormNoting_eq, foldl_note, functions]
  · have hrewrites := rewrites_of_callForm h
    refine ⟨?_, hrewrites.depth_eq, hrewrites.span_eq, ?_, hrewrites.evaluate_eq, ?_⟩
    · simpa [isCallForm] using hrewrites.operators
    · rw [identifiers, identifiers, hrewrites.variables_eq]
    · rw [functions, hrewrites.calls_eq]

/-- The tree of `-x // f((y, x), -y)`. -/
def floored : Expr :=
  .binary ⟨0, 19⟩ .floorDiv (.unary ⟨0, 2⟩ .neg (.ident ⟨1, 2⟩ "x"))
    (.call ⟨6, 19⟩ "f" [.tuple ⟨8, 14⟩ [.ident ⟨9, 10⟩ "y", .ident ⟨12, 13⟩ "x"],
      .unary ⟨16, 18⟩ .neg (.ident ⟨17, 18⟩ "y")])

/-- Its call form. -/
def flooredCall : Expr :=
  .call ⟨0, 19⟩ "floordiv" [.call ⟨0, 2⟩ "neg" [.ident ⟨1, 2⟩ "x"],
    .call ⟨6, 19⟩ "f" [.tuple ⟨8, 14⟩ [.ident ⟨9, 10⟩ "y", .ident ⟨12, 13⟩ "x"],
      .call ⟨16, 18⟩ "neg" [.ident ⟨17, 18⟩ "y"]]]

/-- The sign is noted once, and the tuple fails in both; a comparison behind it is refused. -/
theorem callForm_preserves_floored :
    floored.callForm = .ok flooredCall ∧ flooredCall.depth = 4 ∧
    flooredCall.functions = ["neg", "f", "floordiv"] ∧
    floored.callFormNoting [] = .ok (flooredCall, ["neg", "f", "floordiv"]) ∧
    (∀ vars, flooredCall.evaluate vars = floored.evaluate vars) ∧
    (binary ⟨0, 23⟩ .lt floored (.unary ⟨21, 23⟩ .pos floored)).callForm
      = .error (.unsupportedOperator "<") := by
  have hcall : floored.callForm = .ok flooredCall := rfl
  have hnames : (flooredCall.postorder.filterMap called?).eraseDups = ["neg", "f", "floordiv"] := by
    decide
  obtain ⟨-, hnoting, hok⟩ := callForm_preserves floored
  obtain ⟨-, hdepth, -, -, hvalue, hfunctions⟩ := hok flooredCall hcall
  rw [hcall] at hnoting
  rw [hfunctions.trans hnames, hnoting, hdepth]
  refine ⟨hcall, by decide, rfl, ?_, hvalue, ?_⟩
  · rw [← hnames, ← hfunctions]
    rfl
  · exact ((callForm_preserves _).1 _).2 ⟨"<", by decide, rfl⟩

end Expr

end NodeFormula
