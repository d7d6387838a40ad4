import NodeFormula.Proofs.Build.Invariant
import NodeFormula.Proofs.Build.Text
import NodeFormula.Proofs.Expr.Meaning
/-!
# NodeFormula — the limit of a parser and of a build

A build finds an expression too large before it changes the graph or not at all, and exactly if
its depth exceeds the limit (`build_tooLarge`). The parser measures something else under the same
limit: the levels it goes down, and it goes down none for a left operand. Where no left operand is
deeper than the right one the two agree, and what could be parsed is not too large for a build
(`build_not_tooLarge`). A chain of operators gets deeper with each of them, and so what is read
may still be refused (`chain_tooLarge`).
-/

namespace NodeFormula

open Graph Pass

namespace Build

/-! ## Errors of a build that has begun -/

section

variable {ε α : Type} {x : PassM ε α}

/-- An error that does not say that the expression is too large. -/
def Sized (err : BuildError) (_ : Pass) : Prop := err ≠ .tooLarge

/-- What the graph refuses is told as another error. -/
theorem sized_adaptExcept {f : ε → BuildError} (hf : ∀ err, f err ≠ .tooLarge) :
    Ensures (fun _ => True) (x.adaptExcept f) (fun _ _ => True) Sized := by
  refine Ensures.adaptExcept fun p _ => ?_
  cases x p with
  | ok a q => trivial
  | error err q => exact hf err

variable [TagDigest]

theorem sized_tagFor (function : String) (operands : List Operand) :
    Ensures (fun _ => True) (tagFor function operands) (fun _ _ => True) Sized :=
  fun _ _ => trivial

theorem sized_node (name : String) (kind : NodeKind) (operands : List Operand) :
    Ensures (fun _ => True) (node name kind operands) (fun _ _ => True) Sized :=
  Ensures.bind (sized_tagFor name operands) fun _ =>
    Ensures.bind (sized_adaptExcept fun _ => nofun) fun _ => Ensures.pure fun _ _ => trivial

/-- Nothing that a build does is to find the expression too large. -/
theorem sizes : Invariant (fun _ => True) Sized where
  call {f function} _ values :=
    Ensures.bind (sized_tagFor f values) fun t => sized_adaptExcept fun err => by cases err <;> nofun
  value _ := sized_node _ _ _
  combine elements := sized_node _ _ elements
  raise h _ := h

variable (b : Bindings)

theorem sized_linked (e : Expr) :
    Ensures (fun _ => True) (linked b e) (fun _ _ => True) Sized :=
  Ensures.bind (sizes.root b e) fun _ => Ensures.bind (sized_adaptExcept fun _ => nofun) fun _ =>
    Ensures.pure fun _ _ => trivial

end

end Build

section

variable [TagDigest] {o : BuildOptions} {text : String} {e : Expr}

/-- **A build finds an expression too large exactly if its depth exceeds the limit.** -/
theorem build_tooLarge (o : BuildOptions) (b : Bindings) (e : Expr) (g : Graph) :
    (build o b e g).1 = .error .tooLarge ↔ o.maxDepth < e.depth := by
  constructor
  · intro h
    by_contra hdepth
    rw [build, Build.check, if_neg hdepth] at h
    split at h
    · rename_i err hfound
      split at hfound
      · rename_i hnode
        cases hfound
        cases h
        obtain ⟨n, -, hn⟩ := List.exists_of_findSome?_eq_some hnode
        rw [Build.nodeError?.eq_def] at hn
        split at hn
        · split at hn <;> cases hn
        · split at hn <;> cases hn
        · cases hn
      · cases hfound
    · have hlinked := Build.sized_linked b e (Pass.start g o.spacing) trivial
      split at h
      · rename_i err p hrun
        rw [hrun] at hlinked
        cases h
        exact hlinked rfl
      · split at h
        · split at h <;> cases h
        · cases h
  · intro h
    rw [build, Build.check_of_lt h]

/-- **What the parser reads under a limit is not too large for a build under the same limit**,
where no left operand of an operator is deeper than the right one. In general the expression takes
no more levels than the limit, left operands not counted, and it is too large exactly if its depth
exceeds the limit all the same. -/
theorem build_not_tooLarge (h : lower o.maxDepth text = .ok e) (b : Bindings) (g : Graph) :
    ∃ parsed, Expr.parse o.maxDepth text = .ok parsed ∧ parsed.callForm = .ok e ∧
      parsed.nesting ≤ o.maxDepth ∧
      ((build o b e g).1 = .error .tooLarge ↔ o.maxDepth < parsed.depth) ∧
      ((∀ n ∈ parsed.preorder, n.leansLeft = false) →
        (build o b e g).1 ≠ .error .tooLarge) := by
  obtain ⟨parsed, hparse, hcall⟩ := lower_eq_ok h
  have hnesting := Expr.nesting_le_of_parse hparse
  have hlarge : (build o b e g).1 = .error .tooLarge ↔ o.maxDepth < parsed.depth := by
    rw [build_tooLarge, (Expr.rewrites_of_callForm hcall).depth_eq]
  refine ⟨parsed, hparse, hcall, hnesting, hlarge, fun hleft herr => ?_⟩
  have hdepth := Expr.depth_le_nesting hleft
  have := hlarge.1 herr
  omega

end

/-- A power groups to the right, so it takes a level for each of its own. -/
theorem build_not_tooLarge_power :
    ∃ e, lower 4 "x**-sin(x)" = .ok e ∧ e.depth = 4 ∧
      ∀ b g, (build ⟨4, true, 150⟩ b e g).1 ≠ .error .tooLarge := by
  have hchecks : (lower 4 "x**-sin(x)").toOption.map Expr.depth = some 4 ∧
      ∀ parsed ∈ (Expr.parse 4 "x**-sin(x)").toOption, ∀ n ∈ parsed.preorder, n.leansLeft = false := by
    decide +kernel
  obtain ⟨hdepth, hleft⟩ := hchecks
  cases h : lower 4 "x**-sin(x)" with
  | error err =>
    rw [h] at hdepth
    cases hdepth
  | ok e =>
    rw [h] at hdepth
    refine ⟨e, rfl, Option.some.inj hdepth, fun b g => ?_⟩
    obtain ⟨parsed, hparse, -, -, -, hbuild⟩ :=
      build_not_tooLarge (o := ⟨4, true, 150⟩) h b g
    exact hbuild (hleft parsed (by rw [hparse]; rfl))

/-- **A chain is read and refused.** The parser stays on its level for the left operand of a sum,
so a limit of two is enough for it, but the tree has three levels and the build refuses it. -/
theorem chain_tooLarge :
    ∃ e, lower 2 "x+x+x" = .ok e ∧
      (build ⟨2, true, 150⟩ (.atInterface ⟨exit, 0⟩) e plain).1 = .error .tooLarge ∧
      (build ⟨3, true, 150⟩ (.atInterface ⟨exit, 0⟩) e plain).1.isOk := by
  have hchecks : (lower 2 "x+x+x").isOk ∧ ∀ e ∈ (lower 2 "x+x+x").toOption,
      (build ⟨2, true, 150⟩ (.atInterface ⟨exit, 0⟩) e plain).1 = .error .tooLarge ∧
      (build ⟨3, true, 150⟩ (.atInterface ⟨exit, 0⟩) e plain).1.isOk := by
    decide +kernel
  cases h : lower 2 "x+x+x" with
  | error err =>
    rw [h] at hchecks
    cases hchecks.1
  | ok e => exact ⟨e, rfl, hchecks.2 e (by rw [h]; rfl)⟩

end NodeFormula
