import NodeFormula.Proofs.Expr.Exact
/-!
# NodeFormula — how many levels a tree takes

The parser goes down a level for what stands behind an operator, for an argument and for an
element, and stays where it is for the left operand of an operator. So what it returns takes at
most as many levels as the limit, counted that way (`nesting_le_of_parse`), while the tree itself
may be deeper: it grows by one with each operator of a chain. It is not if no left operand is
deeper than the right one (`depth_le_nesting`).
-/

namespace NodeFormula

namespace Expr

mutual

/-- The number of levels that a tree takes at least: what stands behind an operator, an argument
or an element is one level further down, the left operand of an operator is not. -/
def nesting : Expr → Nat
  | number .. => 1
  | ident .. => 1
  | binary _ _ l r => max l.nesting (1 + r.nesting)
  | unary _ _ x => 1 + x.nesting
  | call _ _ args => 1 + nestingAll args
  | tuple _ items => 1 + nestingAll items

/-- The greatest number of levels in a list of trees. -/
def nestingAll : List Expr → Nat
  | [] => 0
  | e :: es => max e.nesting (nestingAll es)

end

end Expr

namespace Parser

/-- What a parser of operands returns takes at most so many levels. -/
def Bounded (n : Nat) (below : Nat → Step Expr) : Prop :=
  ∀ least c e c', below least c = .ok (e, c') → e.nesting ≤ n

section

variable {n : Nat} {below : Nat → Step Expr} (hbelow : Bounded n below) {c c' : Cursor} {e : Expr}
  {es : List Expr}

include hbelow

theorem bounded_others {trailing : Bool} {m : Nat} (h : others below trailing m c = .ok (es, c')) :
    Expr.nestingAll es ≤ n := by
  induction m generalizing c es with
  | zero =>
    cases h
    exact Nat.zero_le _
  | succ m ih =>
    cases others_eq_ok.1 h with
    | stop | last => exact Nat.zero_le _
    | more _ _ he hes =>
      rw [Expr.nestingAll, Nat.max_le]
      exact ⟨hbelow _ _ _ _ he, ih hes⟩

theorem bounded_arguments (h : arguments below c = .ok (es, c')) : Expr.nestingAll es ≤ n := by
  cases arguments_eq_ok.1 h with
  | empty => exact Nat.zero_le _
  | cons _ _ he hes _ =>
    rw [Expr.nestingAll, Nat.max_le]
    exact ⟨hbelow _ _ _ _ he, bounded_others hbelow hes⟩

theorem bounded_parenthesized (h : parenthesized below c = .ok (e, c')) : e.nesting ≤ n + 1 := by
  cases parenthesized_eq_ok.1 h with
  | group _ _ he _ _ => exact Nat.le_succ_of_le (hbelow _ _ _ _ he)
  | tuple _ _ he _ hes _ =>
    have hfirst := hbelow _ _ _ _ he
    have hothers := bounded_others hbelow hes
    simp only [Expr.nesting, Expr.nestingAll]
    omega

theorem bounded_primary (h : primary below c = .ok (e, c')) : e.nesting ≤ n + 1 := by
  cases primary_eq_ok.1 h with
  | number | ident => exact Nat.le_add_left _ _
  | call _ _ hargs =>
    have hargs := bounded_arguments hbelow hargs
    simp only [Expr.nesting]
    omega
  | parens _ he _ => exact bounded_parenthesized hbelow he

theorem bounded_operand (h : operand below c = .ok (e, c')) : e.nesting ≤ n + 1 := by
  cases operand_eq_ok.1 h with
  | signed _ he =>
    have hx := hbelow _ _ _ _ he
    simp only [Expr.nesting]
    omega
  | primary _ he => exact bounded_primary hbelow he

/-- However many operators the loop goes through, it stays on its level. -/
theorem bounded_climb {start least m : Nat} {left : Expr} (hleft : left.nesting ≤ n + 1)
    (h : climb below start least m left c = .ok (e, c')) : e.nesting ≤ n + 1 := by
  induction m generalizing left c with
  | zero =>
    cases h
    exact hleft
  | succ m ih =>
    cases climb_eq_ok.1 h with
    | stop => exact hleft
    | more _ _ hright hrest =>
      have hright := hbelow _ _ _ _ hright
      refine ih ?_ hrest
      simp only [Expr.nesting]
      omega

theorem bounded_chain : Bounded (n + 1) (chain below) := by
  intro least c e c' h
  obtain ⟨⟨left, c₁⟩, hleft, h⟩ := bind_eq_ok h
  exact bounded_climb hbelow (bounded_operand hbelow hleft) h

end

theorem bounded_levelled (limit levels : Nat) : Bounded levels (levelled limit levels) := by
  induction levels with
  | zero =>
    intro least c e c' h
    cases h
  | succ levels ih => exact bounded_chain ih

end Parser

namespace Expr

/-- **A parsed tree takes at most as many levels as the limit.** -/
theorem nesting_le_of_parse {limit : Nat} {source : String} {e : Expr}
    (h : parse limit source = .ok e) : e.nesting ≤ limit := by
  rw [parse] at h
  split at h
  · cases h
  · obtain ⟨c, hexpr, -⟩ := ofLexemes_eq_ok.1 h
    exact Parser.bounded_levelled limit limit _ _ _ _ hexpr

/-- The left operand of an operator is deeper than the right one. -/
def leansLeft : Expr → Bool
  | binary _ _ l r => r.depth < l.depth
  | _ => false

mutual

/-- Only an operator that leans to the left lets a tree grow without taking a level. -/
theorem depth_le_nesting : ∀ {e : Expr}, (∀ n ∈ e.preorder, n.leansLeft = false) →
    e.depth ≤ e.nesting
  | number .., _ | ident .., _ => Nat.le_refl _
  | binary s op l r, h => by
    rw [preorder, List.forall_mem_cons, List.forall_mem_append] at h
    obtain ⟨hroot, -, hr⟩ := h
    have hle : l.depth ≤ r.depth := by simpa [leansLeft] using hroot
    have hright := depth_le_nesting hr
    rw [depth, nesting]
    omega
  | unary s op x, h => by
    have hx := depth_le_nesting (List.forall_mem_cons.1 h).2
    rw [depth, nesting]
    omega
  | call s f args, h => by
    have hargs := depthAll_le_nestingAll (List.forall_mem_cons.1 h).2
    rw [depth, nesting]
    omega
  | tuple s items, h => by
    have hitems := depthAll_le_nestingAll (List.forall_mem_cons.1 h).2
    rw [depth, nesting]
    omega

theorem depthAll_le_nestingAll : ∀ {es : List Expr},
    (∀ n ∈ preorderAll es, n.leansLeft = false) → depthAll es ≤ nestingAll es
  | [], _ => Nat.le_refl _
  | e :: es, h => by
    rw [preorderAll, List.forall_mem_append] at h
    have he := depth_le_nesting h.1
    have hes := depthAll_le_nestingAll h.2
    rw [depthAll, nestingAll]
    omega

end

theorem leansLeft_of_isOperator {e : Expr} (h : e.isOperator = false) : e.leansLeft = false := by
  cases e with
  | binary => cases h
  | number | ident | unary | call | tuple => rfl

/-- **A tree without operators has at most as many levels as the limit** under which it was
parsed. -/
theorem depth_le_of_parse {limit : Nat} {source : String} {e : Expr}
    (h : parse limit source = .ok e) (hflat : ∀ x ∈ e.preorder, x.isOperator = false) :
    e.depth ≤ limit := by
  exact Nat.le_trans (depth_le_nesting fun n hn => leansLeft_of_isOperator (hflat n hn))
    (nesting_le_of_parse h)

end Expr

end NodeFormula
