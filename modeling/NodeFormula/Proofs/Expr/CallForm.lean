import NodeFormula.Expr.CallForm
import NodeFormula.Proofs.Result
/-!
# NodeFormula — what lowering leaves

`Expr.Rewrites` says which expression is the call form of which, one rule for each kind of
node. An expression that has been lowered holds no operator: it is in call form
(`isCallForm_of_lower`). All its functions are in the catalogue (`isKnown_of_lower`).
-/

namespace NodeFormula

namespace Expr

mutual

/-- **The call form, rule by rule.** -/
inductive Rewrites : Expr → Expr → Prop
  | number (s : Span) (v : Float) (t : String) : Rewrites (.number s v t) (.number s v t)
  | ident (s : Span) (n : String) : Rewrites (.ident s n) (.ident s n)
  | binary {op : BinaryOp} {f : String} {l l' r r' : Expr} (s : Span) (hf : op.function? = some f)
    (hl : Rewrites l l') (hr : Rewrites r r') : Rewrites (.binary s op l r) (.call s f [l', r'])
  | unary {op : UnaryOp} {f : String} {x x' : Expr} (s : Span) (hf : op.function? = some f)
    (hx : Rewrites x x') : Rewrites (.unary s op x) (.call s f [x'])
  | call {args args' : List Expr} (s : Span) (f : String) (hargs : RewritesAll args args') :
    Rewrites (.call s f args) (.call s f args')
  | tuple {items items' : List Expr} (s : Span) (hitems : RewritesAll items items') :
    Rewrites (.tuple s items) (.tuple s items')

/-- The call forms of a list. -/
inductive RewritesAll : List Expr → List Expr → Prop
  | nil : RewritesAll [] []
  | cons {e e' : Expr} {es es' : List Expr} (he : Rewrites e e') (hes : RewritesAll es es') :
    RewritesAll (e :: es) (e' :: es')

end

theorem operatorFunction_eq_ok {symbol f : String} {function? : Option String} :
    operatorFunction symbol function? = .ok f ↔ function? = some f := by
  cases function? <;> simp [operatorFunction]

mutual

theorem rewrites_of_callForm : ∀ {e e' : Expr}, e.callForm = .ok e' → Rewrites e e'
  | number .., e', h => by
    rw [callForm] at h
    cases h
    exact .number ..
  | ident .., e', h => by
    rw [callForm] at h
    cases h
    exact .ident ..
  | binary s op l r, e', h => by
    rw [callForm] at h
    obtain ⟨f, hf, h⟩ := bind_eq_ok h
    obtain ⟨l', hl, h⟩ := bind_eq_ok h
    obtain ⟨r', hr, h⟩ := bind_eq_ok h
    cases h
    exact .binary s (operatorFunction_eq_ok.1 hf) (rewrites_of_callForm hl) (rewrites_of_callForm hr)
  | unary s op x, e', h => by
    rw [callForm] at h
    obtain ⟨f, hf, h⟩ := bind_eq_ok h
    obtain ⟨x', hx, h⟩ := bind_eq_ok h
    cases h
    exact .unary s (operatorFunction_eq_ok.1 hf) (rewrites_of_callForm hx)
  | call s f args, e', h => by
    rw [callForm] at h
    obtain ⟨args', hargs, h⟩ := bind_eq_ok h
    cases h
    exact .call s f (rewritesAll_of_callFormAll hargs)
  | tuple s items, e', h => by
    rw [callForm] at h
    obtain ⟨items', hitems, h⟩ := bind_eq_ok h
    cases h
    exact .tuple s (rewritesAll_of_callFormAll hitems)

theorem rewritesAll_of_callFormAll : ∀ {es es' : List Expr}, callFormAll es = .ok es' →
    RewritesAll es es'
  | [], es', h => by
    rw [callFormAll] at h
    cases h
    exact .nil
  | e :: es, es', h => by
    rw [callFormAll] at h
    obtain ⟨e', he, h⟩ := bind_eq_ok h
    obtain ⟨es'', hes, h⟩ := bind_eq_ok h
    cases h
    exact .cons (rewrites_of_callForm he) (rewritesAll_of_callFormAll hes)

end

mutual

/-- **The call form holds no operator.** -/
theorem Rewrites.operators : ∀ {e e' : Expr}, Rewrites e e' →
    ∀ n ∈ e'.preorder, n.isOperator = false
  | _, _, .number .. => List.forall_mem_singleton.2 rfl
  | _, _, .ident .. => List.forall_mem_singleton.2 rfl
  | _, _, .binary _ _ hl hr => by
    simp only [preorder, preorderAll, List.append_nil, List.forall_mem_cons, List.forall_mem_append]
    exact ⟨rfl, hl.operators, hr.operators⟩
  | _, _, .unary _ _ hx => by
    simp only [preorder, preorderAll, List.append_nil, List.forall_mem_cons]
    exact ⟨rfl, hx.operators⟩
  | _, _, .call _ _ hargs => List.forall_mem_cons.2 ⟨rfl, hargs.operators⟩
  | _, _, .tuple _ hitems => List.forall_mem_cons.2 ⟨rfl, hitems.operators⟩

theorem RewritesAll.operators : ∀ {es es' : List Expr}, RewritesAll es es' →
    ∀ n ∈ preorderAll es', n.isOperator = false
  | _, _, .nil => List.forall_mem_nil _
  | _, _, .cons he hes => List.forall_mem_append.2 ⟨he.operators, hes.operators⟩

end

end Expr

/-- What is lowered was parsed, and its call form has functions of the catalogue alone. -/
theorem exists_of_lower {limit : Nat} {text : String} {e : Expr} (h : lower limit text = .ok e) :
    ∃ parsed, Expr.parse limit text = .ok parsed ∧ parsed.callForm = .ok e ∧
      ∀ f ∈ e.calls, Catalogue.isKnown f = true := by
  rw [lower] at h
  cases hp : Expr.parse limit text with
  | error err =>
    rw [hp] at h
    obtain ⟨kind, span⟩ := err
    cases kind <;> cases h
  | ok parsed =>
    simp only [hp] at h
    obtain ⟨e', he, h⟩ := bind_eq_ok h
    cases hf : e'.functions.find? fun f => !Catalogue.isKnown f with
    | some f =>
      simp only [hf] at h
      cases h
    | none =>
      simp only [hf] at h
      cases h
      refine ⟨parsed, rfl, he, fun f hmem => ?_⟩
      simpa using List.find?_eq_none.1 hf f (List.mem_eraseDups.2 hmem)

theorem lower_eq_ok {limit : Nat} {text : String} {e : Expr} (h : lower limit text = .ok e) :
    ∃ parsed, Expr.parse limit text = .ok parsed ∧ parsed.callForm = .ok e := by
  obtain ⟨parsed, hparse, hcall, -⟩ := exists_of_lower h
  exact ⟨parsed, hparse, hcall⟩

mutual

/-- What an expression calls is among its calls. -/
theorem Expr.mem_calls {span : Span} {f : String} {args : List Expr} :
    ∀ {e : Expr}, .call span f args ∈ e.preorder → f ∈ e.calls
  | .number .., h => by
    rw [preorder, List.mem_singleton] at h
    cases h
  | .ident .., h => by
    rw [preorder, List.mem_singleton] at h
    cases h
  | .binary _ op l r, h => by
    rw [preorder, List.mem_cons, List.mem_append] at h
    rw [calls, List.mem_append, List.mem_append]
    rcases h with h | h | h
    · cases h
    · exact .inl (.inl (mem_calls h))
    · exact .inl (.inr (mem_calls h))
  | .unary _ op x, h => by
    rw [preorder, List.mem_cons] at h
    rw [calls, List.mem_append]
    rcases h with h | h
    · cases h
    · exact .inl (mem_calls h)
  | .call .., h => by
    rw [preorder, List.mem_cons] at h
    rw [calls, List.mem_append]
    rcases h with h | h
    · cases h
      exact .inr (List.mem_singleton_self _)
    · exact .inl (mem_callsAll h)
  | .tuple .., h => by
    rw [preorder, List.mem_cons] at h
    rw [calls]
    rcases h with h | h
    · cases h
    · exact mem_callsAll h

theorem Expr.mem_callsAll {span : Span} {f : String} {args : List Expr} :
    ∀ {es : List Expr}, .call span f args ∈ preorderAll es → f ∈ callsAll es
  | [], h => by
    rw [preorderAll] at h
    cases h
  | e :: es, h => by
    rw [preorderAll, List.mem_append] at h
    rw [callsAll, List.mem_append]
    exact h.imp mem_calls mem_callsAll

end

/-- The functions that a lowered expression calls are in the catalogue. -/
theorem isKnown_of_lower {limit : Nat} {text : String} {e : Expr} (h : lower limit text = .ok e)
    {span : Span} {f : String} {args : List Expr} (hmem : .call span f args ∈ e.preorder) :
    Catalogue.isKnown f = true := by
  obtain ⟨parsed, -, -, hknown⟩ := exists_of_lower h
  exact hknown f (Expr.mem_calls hmem)

theorem isCallForm_of_lower {limit : Nat} {text : String} {e : Expr}
    (h : lower limit text = .ok e) : ∀ n ∈ e.preorder, n.isOperator = false := by
  obtain ⟨parsed, -, he⟩ := lower_eq_ok h
  exact (Expr.rewrites_of_callForm he).operators

end NodeFormula
