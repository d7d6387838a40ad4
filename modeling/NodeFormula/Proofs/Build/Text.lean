import NodeFormula.Proofs.Build.Correct
import NodeFormula.Proofs.Expr.Limit
/-!
# NodeFormula — a build from the printed call form

A build does not look at where its expression was read from (`build_bare`), and the text of a
lowered expression is read back as that expression under every limit that its levels do not
exceed. So it makes no difference whether the expression or its text is built
(`buildText_text`): the limit that stops the parser is the one that stops the build.
-/

namespace NodeFormula

open Graph Pass

namespace Build

section

variable [TagDigest] (b : Bindings)

mutual

theorem operand_bare : ∀ (tuples : Bool) (e : Expr), operand b tuples e.bare = operand b tuples e
  | _, .number .. => by rw [Expr.bare, operand, operand]
  | _, .ident .. => by rw [Expr.bare, operand, operand]
  | _, .binary .. => by rw [Expr.bare, operand, operand]
  | _, .unary .. => by rw [Expr.bare, operand, operand]
  | _, .call _ _ args => by rw [Expr.bare, operand, operand, operands_bareAll true args]
  | _, .tuple _ items => by
    rw [Expr.bare, operand, operand, Expr.length_bareAll, operands_bareAll false items]

theorem operands_bareAll : ∀ (tuples : Bool) (es : List Expr),
    operands b tuples (Expr.bareAll es) = operands b tuples es
  | _, [] => rfl
  | _, e :: es => by
    rw [Expr.bareAll, operands, operands, operand_bare _ e, operands_bareAll _ es]

end

end

theorem nodeError?_bare (b : Bindings) (g : Graph) (e : Expr) :
    nodeError? b g e.bare = nodeError? b g e := by
  cases e <;> rfl

theorem check_bare (b : Bindings) (o : BuildOptions) (e : Expr) (g : Graph) :
    check b o e.bare g = check b o e g := by
  have hnodes : (nodeError? b g ∘ Expr.bare) = nodeError? b g := funext (nodeError?_bare b g)
  rw [check, check, e.depth_bare, e.preorder_bare, List.findSome?_map, hnodes]

/-- What is too deep is not built. -/
theorem check_of_lt {o : BuildOptions} {e : Expr} (h : o.maxDepth < e.depth) (b : Bindings)
    (g : Graph) : check b o e g = .error .tooLarge := by
  rw [check, if_pos h]

end Build

section

variable [TagDigest] {limit : Nat} {text : String} {e e' : Expr}

/-- **A build ignores where its expression was read from.** -/
theorem build_bare (o : BuildOptions) (b : Bindings) (e : Expr) (g : Graph) :
    build o b e.bare g = build o b e g := by
  rw [build, build, Build.check_bare, Build.linked, Build.linked, Build.root, Build.root,
    Build.operand_bare]

theorem build_congr (h : e'.bare = e.bare) (o : BuildOptions) (b : Bindings) (g : Graph) :
    build o b e' g = build o b e g := by
  rw [← build_bare o b e', h, build_bare]

/-- **The text of a lowered expression is built as the expression is**: with the same report
or the same error, and the same graph. -/
theorem buildText_text (h : lower limit text = .ok e) (htuples : ∀ s x, .tuple s [x] ∉ e.preorder)
    (o : BuildOptions) (b : Bindings) (g : Graph) :
    buildText o b e.text g = build o b e g := by
  have hflat := isCallForm_of_lower h
  have hlegible : e.Legible := by
    obtain ⟨parsed, hparsed, hcall⟩ := lower_eq_ok h
    exact (Expr.rewrites_of_callForm hcall).legible (Expr.legible_of_parse hparsed)
  obtain ⟨hread, hstopped⟩ := Expr.parse_text_of_callForm hlegible hflat htuples o.maxDepth
  rcases Nat.lt_or_ge o.maxDepth e.depth with hdeep | hdepth
  · obtain ⟨span, hparse⟩ := hstopped hdeep
    rw [buildText, hparse, build, Build.check_of_lt hdeep]
  · obtain ⟨e', hparse, hbare⟩ := hread hdepth
    have hcall : e'.isCallForm = true := by
      rw [← Expr.isCallForm_bare, hbare, Expr.isCallForm_bare]
      exact Expr.isCallForm_iff.2 hflat
    rw [buildText, hparse]
    dsimp only
    rw [if_pos hcall, build_congr hbare]

end

/-- The expression and its text are built alike, and both are too deep for a limit of two. -/
theorem buildText_text_mixed :
    ∃ e, callForm? "v*(1,2,3) + x//2" = some e ∧
      (∀ maxDepth, buildText ⟨maxDepth, true, 150⟩ (.atInterface ⟨exit, 0⟩) e.text mixed
        = build ⟨maxDepth, true, 150⟩ (.atInterface ⟨exit, 0⟩) e mixed) ∧
      (build ⟨4, true, 150⟩ (.atInterface ⟨exit, 0⟩) e mixed).1.isOk ∧
      (build ⟨2, true, 150⟩ (.atInterface ⟨exit, 0⟩) e mixed).1 = .error .tooLarge := by
  have hsome : (callForm? "v*(1,2,3) + x//2").isSome := by decide +kernel
  have hchecks : ∀ e ∈ callForm? "v*(1,2,3) + x//2",
      (∀ n ∈ e.preorder, n.items?.map List.length ≠ some 1) ∧
      (build ⟨4, true, 150⟩ (.atInterface ⟨exit, 0⟩) e mixed).1.isOk ∧
      (build ⟨2, true, 150⟩ (.atInterface ⟨exit, 0⟩) e mixed).1 = .error .tooLarge := by
    decide +kernel
  obtain ⟨e, he⟩ := Option.isSome_iff_exists.1 hsome
  obtain ⟨htuples, hbuilt, hdeep⟩ := hchecks e he
  refine ⟨e, he, fun maxDepth => ?_, hbuilt, hdeep⟩
  exact buildText_text (lower_of_callForm? he) (fun s x hmem => htuples _ hmem rfl) _ _ _

/-- A tuple of one element is refused, but its text is the element in parentheses. -/
example : ∃ e ∈ callForm? "(x,)",
    (build .standard (.atInterface ⟨exit, 0⟩) e plain).1 = .error .wrongTuple ∧
      (buildText .standard (.atInterface ⟨exit, 0⟩) e.text plain).1.isOk := by
  decide +kernel

end NodeFormula
