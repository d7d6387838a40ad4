import NodeFormula.Build
import NodeFormula.Proofs.Pass.Ensures
import NodeFormula.Proofs.Result
/-!
# NodeFormula — what holds throughout a build

A build changes a pass by its calls and by the nodes of its constants. What those keep, the
stages of a call (`Builtin.ensures_build`) and the calls of an expression, is kept by the whole
(`Build.Invariant.operand`, `Build.Invariant.root`), and no other proof has to follow an
expression for it.
-/

namespace NodeFormula

open Pass

namespace Builtin

variable {f : Builtin} {t : Tag} {operands : List Operand} {I : Pass → Prop}

/-- What each stage keeps, all of them do. No stage starts from a constant vector. -/
theorem ensures_build {E : GraphError → Pass → Prop}
    (hstage : ∀ s ∈ f.stages, ∀ previous : Operand,
      (∀ v, previous = .literal v → v.type = .float) →
      Ensures I (buildStage t operands previous s) (fun _ => I) E) :
    Ensures I (f.build t operands) (fun _ => I) E := by
  have hrest : ∀ rest : List Stage, (∀ s ∈ rest, s ∈ f.stages) → ∀ o : OutputRef,
      Ensures I (rest.foldlM (fun o s => buildStage t operands (.socket o) s) o) (fun _ => I) E := by
    intro rest
    induction rest with
    | nil => exact fun _ o => Ensures.pure fun _ h => h
    | cons s rest ih =>
      intro hmem o
      rw [List.foldlM_cons]
      refine Ensures.bind (hstage s (hmem s List.mem_cons_self) _ fun v hv => ?_)
        (ih fun s' hs' => hmem s' (List.mem_cons_of_mem _ hs'))
      cases hv
  refine Ensures.bind (hstage _ List.mem_cons_self _ fun v hv => ?_)
    (hrest f.rest fun s hs => List.mem_cons_of_mem _ hs)
  cases hv
  rfl

/-- A call that is refused changes nothing, and nodes are made for what was checked. -/
theorem ensures_call {E : FunctionError → Pass → Prop}
    (hrefused : ∀ err p, I p → E (.call err) p)
    (hbuild : ∀ g, f.checkCall operands g = .ok () →
      Ensures I (f.build t operands) (fun _ => I) fun err => E (.graph err)) :
    Ensures I (f.call t operands) (fun _ => I) E := by
  refine Ensures.bind (Q := fun _ p => I p ∧ ∃ g, f.checkCall operands g = .ok ())
    (Ensures.adaptExcept (Ensures.read (fun p _ hp hr => ⟨hp, p.graph, hr⟩)
      fun p err hp _ => hrefused err p hp)) fun _ p hp => ?_
  obtain ⟨hp, g, hcheck⟩ := hp
  exact Ensures.adaptExcept (hbuild g hcheck) p hp

end Builtin

namespace Build

variable [TagDigest]

/-- What holds of a pass throughout a build, and how it may fail. -/
structure Invariant (I : Pass → Prop) (E : BuildError → Pass → Prop) : Prop where
  /-- A call of a function that exists. -/
  call : ∀ {f function}, Catalogue.require f = .ok function → ∀ values,
    Ensures I (tagFor f values >>= fun t => (function.call t values).adaptExcept BuildError.ofFunction)
      (fun _ => I) E
  /-- A number that is the whole expression. -/
  value : ∀ a, Ensures I (node "value" .value [.literal (.float a)]) (fun _ => I) E
  combine : ∀ elements, Ensures I (combine elements) (fun _ => I) E
  /-- What is wrong with the expression itself is found where nothing has been changed for it. -/
  raise : ∀ {err p}, err ≠ .tooLarge → I p → E err p

namespace Invariant

variable {I : Pass → Prop} {E : BuildError → Pass → Prop} (b : Bindings)

theorem vector (h : Invariant I E) (elements : List Operand) :
    Ensures I (vector elements) (fun _ => I) E := by
  rw [Build.vector]
  cases numbers? elements with
  | some v => exact Ensures.pure fun _ hp => hp
  | none => exact Ensures.bind (h.combine elements) fun o => Ensures.pure fun _ hp => hp

mutual

/-- **What calls keep, an expression does.** -/
theorem operand (h : Invariant I E) (tuples : Bool) :
    ∀ e : Expr, Ensures I (operand b tuples e) (fun _ => I) E
  | .number _ v text => by
    rw [Build.operand]
    cases b.constant? text <;> exact Ensures.pure fun _ hp => hp
  | .ident _ name => by
    rw [Build.operand]
    refine Ensures.get fun p hp => ?_
    cases b.resolve? p.graph name with
    | some o =>
      refine Ensures.pure fun q hq => ?_
      subst hq
      exact hp
    | none =>
      refine Ensures.throw fun q hq => ?_
      subst hq
      exact h.raise (by simp) hp
  | .call _ f args => by
    rw [Build.operand]
    refine Ensures.bind (Q := fun function p => Catalogue.require f = .ok function ∧ I p)
      (Ensures.read (fun p function hp hr => ⟨mapError_eq_ok hr, hp⟩) fun p err hp hr => ?_)
      fun function p hp => ?_
    · cases hf : Catalogue.require f with
      | ok function =>
        rw [hf] at hr
        cases hr
      | error callErr =>
        rw [hf] at hr
        cases hr
        exact h.raise (by simp) hp
    · refine Ensures.bind (h.operands true args) (fun values => ?_) p hp.2
      rw [← bind_assoc]
      exact Ensures.bind (h.call hp.1 values) fun o => Ensures.pure fun _ hq => hq
  | .tuple _ items => by
    rw [Build.operand]
    split
    · exact Ensures.bind (h.operands false items) h.vector
    · exact Ensures.throw fun _ hp => h.raise (by decide) hp
  | .binary .. => by
    rw [Build.operand]
    exact Ensures.throw fun _ hp => h.raise (by decide) hp
  | .unary .. => by
    rw [Build.operand]
    exact Ensures.throw fun _ hp => h.raise (by decide) hp

theorem operands (h : Invariant I E) (tuples : Bool) :
    ∀ es : List Expr, Ensures I (operands b tuples es) (fun _ => I) E
  | [] => by
    rw [Build.operands]
    exact Ensures.pure fun _ hp => hp
  | e :: es => by
    rw [Build.operands]
    exact Ensures.bind (h.operand tuples e) fun x =>
      Ensures.bind (h.operands tuples es) fun xs => Ensures.pure fun _ hp => hp

end

/-- So does a whole expression. -/
theorem root (h : Invariant I E) (e : Expr) : Ensures I (root b e) (fun _ => I) E := by
  refine Ensures.bind (h.operand b true e) fun x => ?_
  match x with
  | .socket o => exact Ensures.pure fun _ hp => hp
  | .literal (.float a) => exact h.value a
  | .literal (.vector v) => exact h.combine _

end Invariant

end Build

end NodeFormula
