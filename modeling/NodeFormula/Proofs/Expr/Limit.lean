import NodeFormula.Proofs.Expr.CallForm
import NodeFormula.Proofs.Expr.Nesting
import NodeFormula.Proofs.Expr.Printed
/-!
# NodeFormula — the limit of nesting

A lower limit stops the parser and does nothing else to it: what it returns is what it returns
under a higher one, or the fault that the limit was met (`cut_levelled`), and with more levels than
lexemes the limit is never met (`ofLexemes_stable`). A printed tree without operators takes as
many levels as it has: it is read back if these do not exceed the limit, and the limit is met if
they do (`parse_text_of_callForm`).
-/

namespace NodeFormula

namespace Parser

/-! ## A lower limit -/

/-- **A result is cut off by a limit**, or the limit does not matter to it. -/
def Cut {α : Type} (limit : Nat) (r r' : Except ParseError α) : Prop :=
  r = r' ∨ ∃ span, r = .error ⟨.tooDeep limit, span⟩

theorem Cut.refl {α : Type} {limit : Nat} (r : Except ParseError α) : Cut limit r r := .inl rfl

theorem Cut.bind {α β : Type} {limit : Nat} {r r' : Except ParseError α}
    {f f' : α → Except ParseError β} (hr : Cut limit r r') (hf : ∀ a, Cut limit (f a) (f' a)) :
    Cut limit (r >>= f) (r' >>= f') := by
  rcases hr with rfl | ⟨span, rfl⟩
  · cases r with
    | ok a => exact hf a
    | error err => exact .refl _
  · exact .inr ⟨span, rfl⟩

section

variable {limit : Nat} {below below' : Nat → Step Expr}
  (hbelow : ∀ least c, Cut limit (below least c) (below' least c))

include hbelow

theorem cut_others (trailing : Bool) (m : Nat) (c : Cursor) :
    Cut limit (others below trailing m c) (others below' trailing m c) := by
  induction m generalizing c with
  | zero => exact .refl _
  | succ m ih =>
    rw [others, others]
    split
    · dsimp only
      split
      · exact .refl _
      · exact (hbelow 0 c.advance).bind fun x => (ih x.2).bind fun _ => .refl _
    · exact .refl _

theorem cut_arguments (c : Cursor) : Cut limit (arguments below c) (arguments below' c) := by
  refine (Cut.refl (expect .lparen c)).bind fun c₁ => ?_
  split
  · exact .refl _
  · exact (hbelow 0 c₁).bind fun x => (cut_others hbelow _ _ x.2).bind fun _ => .refl _

theorem cut_parenthesized (c : Cursor) :
    Cut limit (parenthesized below c) (parenthesized below' c) := by
  refine (Cut.refl (expect .lparen c)).bind fun c₁ => ?_
  split
  · exact .refl _
  · refine (hbelow 0 c₁).bind fun x => ?_
    dsimp only
    split
    · exact (cut_others hbelow _ _ x.2).bind fun _ => .refl _
    · exact .refl _

theorem cut_primary (c : Cursor) : Cut limit (primary below c) (primary below' c) := by
  rw [primary, primary]
  dsimp only
  split
  · exact .refl _
  · split
    · exact (cut_arguments hbelow _).bind fun _ => .refl _
    · exact .refl _
  · exact (cut_parenthesized hbelow c).bind fun _ => .refl _
  · exact .refl _

theorem cut_operand (c : Cursor) : Cut limit (operand below c) (operand below' c) := by
  rw [operand, operand]
  split
  · exact (hbelow _ _).bind fun _ => .refl _
  · exact cut_primary hbelow c

theorem cut_climb (start least m : Nat) (left : Expr) (c : Cursor) :
    Cut limit (climb below start least m left c) (climb below' start least m left c) := by
  induction m generalizing left c with
  | zero => exact .refl _
  | succ m ih =>
    rw [climb, climb]
    split
    · exact .refl _
    · split
      · exact .refl _
      · exact (hbelow _ _).bind fun _ => ih _ _

theorem cut_chain (least : Nat) (c : Cursor) :
    Cut limit (chain below least c) (chain below' least c) :=
  (cut_operand hbelow c).bind fun _ => cut_climb hbelow _ _ _ _ _

end

/-- **More levels change nothing but whether the limit is met.** -/
theorem cut_levelled {limit limit' levels levels' : Nat} (hle : levels ≤ levels') (least : Nat)
    (c : Cursor) : Cut limit (levelled limit levels least c) (levelled limit' levels' least c) := by
  -- the limit is met where the lower number of levels has run out
  induction levels generalizing levels' least c with
  | zero => exact .inr ⟨_, rfl⟩
  | succ levels ih =>
    obtain ⟨k, rfl⟩ : ∃ k, levels' = k + 1 := ⟨levels' - 1, by omega⟩
    exact cut_chain (fun least c => ih (by omega) least c) least c

theorem cut_ofLexemes {limit limit' : Nat} (hle : limit ≤ limit') (ls : List Lexeme) :
    Cut limit (Expr.ofLexemes limit ls) (Expr.ofLexemes limit' ls) := by
  rw [Expr.ofLexemes_eq, Expr.ofLexemes_eq]
  exact (cut_levelled hle 0 _).bind fun _ => .refl _

theorem cut_parse {limit limit' : Nat} (hle : limit ≤ limit') (source : String) :
    Cut limit (Expr.parse limit source) (Expr.parse limit' source) := by
  rw [Expr.parse, Expr.parse]
  split
  · exact .refl _
  · exact cut_ofLexemes hle _

end Parser

namespace Expr

/-- **The limit stops the parser and does nothing else.** Unless a limit is met, the result under
every higher limit is the same, the tree with its spans or the error with its place; and a limit
that exceeds the number of lexemes is not met. -/
theorem ofLexemes_stable (ls : List Lexeme) :
    (∀ limit limit', limit ≤ limit' →
      (∀ err, ofLexemes limit ls = .error err → ∀ k, err.fault ≠ .tooDeep k) →
      ofLexemes limit' ls = ofLexemes limit ls) ∧
    ∀ limit, ls.length < limit →
      ∀ err, ofLexemes limit ls = .error err → ∀ k, err.fault ≠ .tooDeep k := by
  refine ⟨fun limit limit' hle hshallow => ?_, fun limit h => shallow_ofLexemes h⟩
  rcases Parser.cut_ofLexemes hle ls with hsame | ⟨span, hcut⟩
  · exact hsame.symm
  · exact absurd rfl (hshallow _ hcut limit)

/-- The signs and the power take four levels: three are not enough, and all limits from four on
give the same tree. -/
theorem ofLexemes_stable_signs :
    (∃ e, ofLexemes 4 signedPower = .ok e ∧ ∀ limit, 4 ≤ limit → ofLexemes limit signedPower = .ok e) ∧
    ofLexemes 3 signedPower = .error ⟨.tooDeep 3, .point 0⟩ ∧
    ∀ err, ofLexemes 6 signedPower = .error err → ∀ k, err.fault ≠ .tooDeep k := by
  obtain ⟨hstable, hnever⟩ := ofLexemes_stable signedPower
  refine ⟨?_, rfl, hnever 6 (by decide)⟩
  have hok : (ofLexemes 4 signedPower).isOk = true := by decide +kernel
  cases h : ofLexemes 4 signedPower with
  | error err =>
    rw [h] at hok
    cases hok
  | ok e =>
    refine ⟨e, rfl, fun limit hle => ?_⟩
    rw [hstable 4 limit hle (by rw [h]; rintro err herr; cases herr), h]

end Expr

/-! ## Words for operators -/

theorem BinaryOp.isName_function (op : BinaryOp) : ∀ f ∈ op.function?, IsName f.toList := by
  cases op <;> rintro f hf <;> cases hf <;>
    exact ⟨_, _, rfl, by decide, List.all_eq_true.1 (by decide)⟩

theorem UnaryOp.isName_function (op : UnaryOp) : ∀ f ∈ op.function?, IsName f.toList := by
  cases op <;> rintro f hf <;> cases hf <;>
    exact ⟨_, _, rfl, by decide, List.all_eq_true.1 (by decide)⟩

namespace Expr

/-! ## Call forms -/

mutual

/-- The nodes of a tree do not depend on where it was read from. -/
theorem preorder_bare : ∀ e : Expr, e.bare.preorder = e.preorder.map bare
  | number .. | ident .. => rfl
  | binary _ _ l r => by simp [bare, preorder, preorder_bare l, preorder_bare r]
  | unary _ _ x => by simp [bare, preorder, preorder_bare x]
  | call _ _ args => by simp [bare, preorder, preorderAll_bareAll args]
  | tuple _ items => by simp [bare, preorder, preorderAll_bareAll items]

theorem preorderAll_bareAll : ∀ es : List Expr, preorderAll (bareAll es) = (preorderAll es).map bare
  | [] => rfl
  | e :: es => by simp [bareAll, preorderAll, preorder_bare e, preorderAll_bareAll es]

end

theorem length_bareAll (es : List Expr) : (bareAll es).length = es.length := by
  induction es with
  | nil => rfl
  | cons e es ih => rw [bareAll, List.length_cons, List.length_cons, ih]

theorem isOperator_bare (e : Expr) : e.bare.isOperator = e.isOperator := by
  cases e <;> rfl

theorem isCallForm_bare (e : Expr) : e.bare.isCallForm = e.isCallForm := by
  rw [isCallForm, isCallForm, preorder_bare, List.all_map]
  simp only [Function.comp_def, isOperator_bare]

theorem isCallForm_iff {e : Expr} : e.isCallForm = true ↔ ∀ x ∈ e.preorder, x.isOperator = false := by
  simp [isCallForm]

mutual

/-- A printed tree without operators goes down a level for each of its levels but the first. -/
theorem levels_of_callForm : ∀ {e : Expr}, (∀ x ∈ e.preorder, x.isOperator = false) →
    e.levels + 1 = e.depth
  | number .., _ | ident .., _ => rfl
  | binary s op l r, h => by
    have := h (binary s op l r) List.mem_cons_self
    cases this
  | unary s op x, h => by
    have := h (unary s op x) List.mem_cons_self
    cases this
  | call _ _ args, h => by
    rw [levels, depth, levelsAll_of_callForm fun x hx => h x (List.mem_cons_of_mem _ hx), Nat.add_comm]
  | tuple _ items, h => by
    rw [levels, depth, levelsAll_of_callForm fun x hx => h x (List.mem_cons_of_mem _ hx), Nat.add_comm]

theorem levelsAll_of_callForm : ∀ {es : List Expr},
    (∀ x ∈ preorderAll es, x.isOperator = false) → levelsAll es = depthAll es
  | [], _ => rfl
  | e :: es, h => by
    rw [levelsAll, depthAll, levels_of_callForm fun x hx => h x (List.mem_append_left _ hx),
      levelsAll_of_callForm fun x hx => h x (List.mem_append_right _ hx)]

end

mutual

/-- **The call form of what can be written can be written.** -/
theorem Rewrites.legible : ∀ {e e' : Expr}, Rewrites e e' → e.Legible → e'.Legible
  | _, _, .number .., he => he
  | _, _, .ident .., he => he
  | _, _, .binary _ hf hl hr, he =>
    ⟨BinaryOp.isName_function _ _ hf, hl.legible he.1, hr.legible he.2, trivial⟩
  | _, _, .unary _ hf hx, he => ⟨UnaryOp.isName_function _ _ hf, hx.legible he, trivial⟩
  | _, _, .call _ _ hargs, he => ⟨he.1, hargs.legible he.2⟩
  | _, _, .tuple _ hitems, he => by
    refine ⟨fun hnil => he.1 ?_, hitems.legible he.2⟩
    subst hnil
    cases hitems
    rfl

theorem RewritesAll.legible : ∀ {es es' : List Expr}, RewritesAll es es' → LegibleAll es →
    LegibleAll es'
  | _, _, .nil, _ => trivial
  | _, _, .cons he hes, h => ⟨he.legible h.1, hes.legible h.2⟩

end

/-- **A call form without tuples of one element is read back** under a limit that its levels do
not exceed; and the limit is met if they do. -/
theorem parse_text_of_callForm {e : Expr} (he : e.Legible)
    (hflat : ∀ x ∈ e.preorder, x.isOperator = false) (htuples : ∀ s x, tuple s [x] ∉ e.preorder)
    (limit : Nat) :
    (e.depth ≤ limit → ∃ e', parse limit e.text = .ok e' ∧ e'.bare = e.bare) ∧
      (limit < e.depth → ∃ span, parse limit e.text = .error ⟨.tooDeep limit, span⟩) := by
  have hlevels := levels_of_callForm hflat
  have hread : ∀ {limit}, e.depth ≤ limit → ∃ e', parse limit e.text = .ok e' ∧ e'.bare = e.bare := by
    intro limit hle
    obtain ⟨e', hparse, hbare⟩ := parse_text_of_legible he (show e.levels < limit by omega)
    exact ⟨e', hparse, hbare.trans ((bare_unwrapped_eq_iff e).2 htuples)⟩
  refine ⟨hread, fun hlt => ?_⟩
  -- with as many levels as the tree has it is read; the lower limit cannot give the same result
  obtain ⟨e', hparse, hbare⟩ := hread (Nat.le_refl _)
  rcases Parser.cut_parse (Nat.le_of_lt hlt) e.text with hsame | hcut
  · have hflat' : e'.isCallForm = true := by
      rw [← isCallForm_bare, hbare, isCallForm_bare]
      exact isCallForm_iff.2 hflat
    have hle := depth_le_of_parse (hsame.trans hparse) (isCallForm_iff.1 hflat')
    rw [← depth_bare, hbare, depth_bare] at hle
    omega
  · exact hcut

end Expr

end NodeFormula
