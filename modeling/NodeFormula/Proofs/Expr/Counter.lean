import NodeFormula.Proofs.Expr.Sound
/-!
# NodeFormula — the count of nesting levels

The parser counts the levels it is in on the cursor. Every expression that is read leaves the
count as it found it, so what the count tells is how deep the recursion is: where it is at `d`,
the parser is the recursion on the levels left (`levelled`) with `limit - d` of them (`expr_eq`).
The proof puts the two beside each other step by step, one on cursors that count and the other
on cursors that do not.
-/

namespace NodeFormula

namespace Parser

/-! ## Cursors at a certain depth -/

/-- The cursor with another count of levels. -/
def Cursor.withDepth (d : Nat) (c : Cursor) : Cursor := { c with depth := d }

/-- What a step returns, with the count of its cursor replaced. -/
def counting {α : Type} (d : Nat) (x : α × Cursor) : α × Cursor := (x.1, x.2.withDepth d)

namespace Cursor

variable (d : Nat) (c : Cursor)

@[simp] theorem token?_withDepth : (c.withDepth d).token? = c.token? := rfl

@[simp] theorem here_withDepth : (c.withDepth d).here = c.here := rfl

@[simp] theorem sees_withDepth (s : Symbol) : (c.withDepth d).sees s = c.sees s := rfl

@[simp] theorem sign?_withDepth : (c.withDepth d).sign? = c.sign? := rfl

@[simp] theorem binding?_withDepth : (c.withDepth d).binding? = c.binding? := rfl

@[simp] theorem advance_withDepth : (c.withDepth d).advance = c.advance.withDepth d := by
  obtain ⟨ahead, behind, depth⟩ := c
  cases ahead <;> rfl

end Cursor

theorem expect_withDepth (s : Symbol) (d : Nat) (c : Cursor) :
    expect s (c.withDepth d) = (expect s c).map (Cursor.withDepth d) := by
  rw [expect, expect, Cursor.sees_withDepth]
  split
  · rw [Cursor.advance_withDepth]
    rfl
  · rfl

/-- Two runs whose results differ by a map go on to results that differ by a map. -/
theorem bind_map_eq {ε α α' β β' : Type} {r : Except ε α} {f : α → α'} {g : β → β'}
    {k : α → Except ε β} {k' : α' → Except ε β'} (h : ∀ a, r = .ok a → k' (f a) = (k a).map g) :
    r.map f >>= k' = (r >>= k).map g := by
  cases r with
  | ok a => exact h a rfl
  | error e => rfl

/-! ## The parser beside the one that does not count -/

/-- One parser of operands does on cursors that are in `d` levels what another does, with fewer
than `n` tokens ahead. -/
def Counts (d n : Nat) (below flat : Nat → Step Expr) : Prop :=
  ∀ least c, c.tokens.length < n → below least (c.withDepth d) = (flat least c).map (counting d)

section

variable {d n : Nat} {below flat : Nat → Step Expr} (hcounts : Counts d n below flat)
  (hsound : Sound flat)

include hcounts hsound

theorem others_withDepth (trailing : Bool) (m : Nat) {c : Cursor} (hc : c.tokens.length ≤ n) :
    others below trailing m (c.withDepth d) = (others flat trailing m c).map (counting d) := by
  induction m generalizing c with
  | zero => rfl
  | succ m ih =>
    rw [others, others, Cursor.sees_withDepth]
    split
    · rename_i hcomma
      rw [Cursor.tokens_of_sees hcomma, List.length_cons] at hc
      rw [Cursor.advance_withDepth]
      dsimp only
      rw [Cursor.sees_withDepth]
      split
      · rfl
      · rw [hcounts 0 c.advance hc]
        refine bind_map_eq fun x hx => ?_
        have hlen := hsound.length_le hx
        refine (congrArg (· >>= _) (ih (by omega))).trans ?_
        exact bind_map_eq fun _ _ => rfl
    · rfl

theorem arguments_withDepth {c : Cursor} (hc : c.tokens.length ≤ n) :
    arguments below (c.withDepth d) = (arguments flat c).map (counting d) := by
  rw [arguments, arguments, expect_withDepth]
  refine bind_map_eq fun c₁ hopen => ?_
  rw [tokens_of_expect hopen, List.length_cons] at hc
  rw [Cursor.sees_withDepth]
  split
  · rw [Cursor.advance_withDepth]
    rfl
  · rw [hcounts 0 c₁ hc]
    refine bind_map_eq fun x hx => ?_
    have hlen := hsound.length_le hx
    refine (congrArg (· >>= _) (others_withDepth hcounts hsound false _ (by omega))).trans ?_
    refine bind_map_eq fun y _ => ?_
    refine (congrArg (· >>= _) (expect_withDepth .rparen d y.2)).trans ?_
    exact bind_map_eq fun _ _ => rfl

theorem parenthesized_withDepth {c : Cursor} (hc : c.tokens.length ≤ n) :
    parenthesized below (c.withDepth d) = (parenthesized flat c).map (counting d) := by
  rw [parenthesized, parenthesized, expect_withDepth, Cursor.here_withDepth]
  refine bind_map_eq fun c₁ hopen => ?_
  rw [tokens_of_expect hopen, List.length_cons] at hc
  rw [Cursor.sees_withDepth]
  split
  · rfl
  · rw [hcounts 0 c₁ hc]
    refine bind_map_eq fun x hx => ?_
    have hlen := hsound.length_le hx
    dsimp only [counting]
    rw [Cursor.sees_withDepth]
    split
    · refine (congrArg (· >>= _) (others_withDepth hcounts hsound true _ (by omega))).trans ?_
      refine bind_map_eq fun y _ => ?_
      refine (congrArg (· >>= _) (expect_withDepth .rparen d y.2)).trans ?_
      exact bind_map_eq fun _ _ => rfl
    · rw [expect_withDepth]
      exact bind_map_eq fun _ _ => rfl

theorem primary_withDepth {c : Cursor} (hc : c.tokens.length ≤ n) :
    primary below (c.withDepth d) = (primary flat c).map (counting d) := by
  rw [primary, primary, Cursor.token?_withDepth, Cursor.here_withDepth, Cursor.advance_withDepth]
  dsimp only
  rw [Cursor.sees_withDepth]
  split
  · split
    · rfl
    · split <;> rfl
  · split
    · have hlen : c.advance.tokens.length ≤ n := by
        rw [Cursor.tokens_advance, List.length_tail]
        omega
      rw [arguments_withDepth hcounts hsound hlen]
      exact bind_map_eq fun _ _ => rfl
    · rfl
  · rw [parenthesized_withDepth hcounts hsound hc]
    refine bind_map_eq fun x _ => ?_
    dsimp only [counting]
    rw [Cursor.sees_withDepth]
    split <;> rfl
  · rfl

theorem operand_withDepth {c : Cursor} (hc : c.tokens.length ≤ n) :
    operand below (c.withDepth d) = (operand flat c).map (counting d) := by
  rw [operand, operand, Cursor.sign?_withDepth]
  split
  · rename_i hsign
    obtain ⟨s, hs, -⟩ := Cursor.sign?_eq_some.1 hsign
    rw [Cursor.tokens_of_head hs, List.length_cons] at hc
    rw [Cursor.advance_withDepth, hcounts _ _ hc]
    exact bind_map_eq fun _ _ => rfl
  · exact primary_withDepth hcounts hsound hc

theorem climb_withDepth (start least m : Nat) (left : Expr) {c : Cursor}
    (hc : c.tokens.length ≤ n) :
    climb below start least m left (c.withDepth d)
      = (climb flat start least m left c).map (counting d) := by
  induction m generalizing left c with
  | zero => rfl
  | succ m ih =>
    rw [climb, climb, Cursor.binding?_withDepth]
    split
    · rfl
    · rename_i b hb
      split
      · rfl
      · obtain ⟨s, hs, -⟩ := Cursor.binding?_eq_some.1 hb
        rw [Cursor.tokens_of_head hs, List.length_cons] at hc
        rw [Cursor.advance_withDepth, hcounts _ _ hc]
        refine bind_map_eq fun x hx => ?_
        have hlen := hsound.length_le hx
        exact ih _ (by omega)

theorem chain_withDepth (least : Nat) {c : Cursor} (hc : c.tokens.length ≤ n) :
    chain below least (c.withDepth d) = (chain flat least c).map (counting d) := by
  rw [chain, chain, operand_withDepth hcounts hsound hc, Cursor.here_withDepth]
  refine bind_map_eq fun x hx => ?_
  obtain ⟨ts, q, hts, -⟩ := sound_operand hsound hx
  rw [hts, List.length_append] at hc
  exact climb_withDepth hcounts hsound _ _ _ _ (by omega)

end

/-! ## The count -/

/-- An expression is a chain between entering a level and leaving it. -/
theorem expr_succ (limit bound least : Nat) (c : Cursor) :
    expr limit (bound + 1) least c
      = c.enter limit >>= fun c =>
          chain (expr limit bound) least c >>= fun x => .ok (x.1, x.2.leave) := rfl

/-- **The count is the depth of the recursion.** In `d` of the levels that the limit allows, the
parser is the recursion on the ones left, and it returns the count it was given. -/
theorem counts_expr {limit d : Nat} (hd : d ≤ limit) (bound : Nat) :
    Counts d bound (expr limit bound) (levelled limit (limit - d)) := by
  induction bound generalizing d with
  | zero => exact fun _ _ hc => absurd hc (Nat.not_lt_zero _)
  | succ bound ih =>
    intro least c hc
    rw [expr_succ]
    rcases Nat.eq_or_lt_of_le hd with rfl | hlt
    · -- the level is one too many
      rw [Nat.sub_self, levelled]
      exact congrArg (· >>= _) (if_pos (Nat.lt_succ_self d))
    · obtain ⟨left, hleft⟩ : ∃ k, limit - d = k + 1 := ⟨limit - d - 1, by omega⟩
      have hbelow : limit - (d + 1) = left := by omega
      have henter : (c.withDepth d).enter limit = .ok (c.withDepth (d + 1)) :=
        if_neg (Nat.not_lt.2 hlt)
      rw [bind_of_ok henter, hleft, levelled]
      have hchain := chain_withDepth (hbelow ▸ ih hlt) (sound_levelled limit left) least
        (Nat.le_of_lt_succ hc)
      rw [hchain]
      -- leaving the level takes the count back
      cases chain (levelled limit left) least c <;> rfl

variable {limit bound least : Nat} {c c' : Cursor} {e : Expr}

theorem expr_eq (hd : c.depth ≤ limit) (hbound : c.tokens.length < bound) :
    expr limit bound least c
      = (levelled limit (limit - c.depth) least c).map (counting c.depth) :=
  counts_expr hd bound least c hbound

/-- **Every expression that is read leaves the count as it was.** -/
theorem depth_of_expr (hbound : c.tokens.length < bound)
    (h : expr limit bound least c = .ok (e, c')) : c'.depth = c.depth := by
  rcases Nat.lt_or_ge limit c.depth with hlt | hd
  · obtain ⟨bound, rfl⟩ : ∃ k, bound = k + 1 := ⟨bound - 1, by omega⟩
    obtain ⟨c₁, henter, -⟩ := bind_eq_ok h
    rw [Cursor.enter, if_pos (Nat.lt_succ_of_lt hlt)] at henter
    cases henter
  · rw [expr_eq hd hbound] at h
    obtain ⟨x, -, hx⟩ := map_eq_ok h
    cases hx
    rfl

end Parser

/-- A whole list of lexemes, by the recursion on levels. -/
theorem Expr.ofLexemes_eq (limit : Nat) (ls : List Lexeme) :
    Expr.ofLexemes limit ls = do
      let (e, c) ← Parser.levelled limit limit 0 (.start ls)
      match c.token? with
      | some t => throw ⟨.trailing t, c.here⟩
      | none => return e := by
  have hbound : (Parser.Cursor.start ls).tokens.length < ls.length + 1 := by
    rw [← Parser.Cursor.length_ahead]
    exact Nat.lt_succ_self _
  have hexpr : Parser.expr limit (ls.length + 1) 0 (.start ls)
      = (Parser.levelled limit limit 0 (.start ls)).map (Parser.counting 0) :=
    Parser.expr_eq (Nat.zero_le limit) hbound
  rw [Expr.ofLexemes, hexpr]
  cases Parser.levelled limit limit 0 (.start ls) <;> rfl

end NodeFormula
