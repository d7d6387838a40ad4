import NodeFormula.Expr.Parser
import NodeFormula.Proofs.Result
/-!
# NodeFormula — how the steps of the parser succeed

For each step a relation between the cursor in front of it, what it returns and the cursor
behind it, with a case for each way in which the step succeeds; and that these are all.
-/

namespace NodeFormula

namespace Parser

/-- How `others` succeeds that may read `n` elements after one more. -/
inductive Others (below : Nat → Step Expr) (trailing : Bool) (n : Nat) (c : Cursor) :
    List Expr → Cursor → Prop
  /-- No comma. -/
  | stop (hcomma : c.sees .comma = false) : Others below trailing n c [] c
  /-- A comma in front of the closing parenthesis. -/
  | last (hcomma : c.sees .comma = true) (htrailing : trailing = true)
      (hclose : c.advance.sees .rparen = true) : Others below trailing n c [] c.advance
  /-- A comma, an element and further ones. -/
  | more {e : Expr} {es : List Expr} {c₁ c₂ : Cursor} (hcomma : c.sees .comma = true)
      (hopen : (trailing && c.advance.sees .rparen) = false) (he : below 0 c.advance = .ok (e, c₁))
      (hes : others below trailing n c₁ = .ok (es, c₂)) : Others below trailing n c (e :: es) c₂

/-- How `arguments` succeeds. -/
inductive Arguments (below : Nat → Step Expr) (c : Cursor) : List Expr → Cursor → Prop
  | empty {c₁ : Cursor} (hopen : expect .lparen c = .ok c₁) (hclose : c₁.sees .rparen = true) :
      Arguments below c [] c₁.advance
  | cons {e : Expr} {es : List Expr} {c₁ c₂ c₃ c₄ : Cursor} (hopen : expect .lparen c = .ok c₁)
      (hsome : c₁.sees .rparen = false) (he : below 0 c₁ = .ok (e, c₂))
      (hes : others below false c₂.ahead.length c₂ = .ok (es, c₃))
      (hclose : expect .rparen c₃ = .ok c₄) : Arguments below c (e :: es) c₄

/-- How `parenthesized` succeeds. -/
inductive Parenthesized (below : Nat → Step Expr) (c : Cursor) : Expr → Cursor → Prop
  | group {e : Expr} {c₁ c₂ c₃ : Cursor} (hopen : expect .lparen c = .ok c₁)
      (hsome : c₁.sees .rparen = false) (he : below 0 c₁ = .ok (e, c₂))
      (hcomma : c₂.sees .comma = false) (hclose : expect .rparen c₂ = .ok c₃) :
      Parenthesized below c e c₃
  | tuple {e : Expr} {es : List Expr} {c₁ c₂ c₃ c₄ : Cursor} (hopen : expect .lparen c = .ok c₁)
      (hsome : c₁.sees .rparen = false) (he : below 0 c₁ = .ok (e, c₂))
      (hcomma : c₂.sees .comma = true) (hes : others below true c₂.ahead.length c₂ = .ok (es, c₃))
      (hclose : expect .rparen c₃ = .ok c₄) :
      Parenthesized below c (.tuple (c₄.spanFrom c.here.start) (e :: es)) c₄

/-- How `primary` succeeds. -/
inductive Primary (below : Nat → Step Expr) (c : Cursor) : Expr → Cursor → Prop
  | number {text : String} {v : Float} (htoken : c.token? = some (.number text))
      (hv : readFloat? text = some v) (hnext : c.advance.sees .lparen = false) :
      Primary below c (.number (c.advance.spanFrom c.here.start) v text) c.advance
  | ident {name : String} (htoken : c.token? = some (.ident name))
      (hnext : c.advance.sees .lparen = false) :
      Primary below c (.ident (c.advance.spanFrom c.here.start) name) c.advance
  | call {name : String} {args : List Expr} {c₁ : Cursor} (htoken : c.token? = some (.ident name))
      (hopen : c.advance.sees .lparen = true)
      (hargs : arguments below c.advance = .ok (args, c₁)) :
      Primary below c (.call (c₁.spanFrom c.here.start) name args) c₁
  | parens {e : Expr} {c₁ : Cursor} (htoken : c.token? = some (.symbol .lparen))
      (he : parenthesized below c = .ok (e, c₁)) (hnext : c₁.sees .lparen = false) :
      Primary below c e c₁

/-- How `operand` succeeds. -/
inductive Operand (below : Nat → Step Expr) (c : Cursor) : Expr → Cursor → Prop
  | signed {op : UnaryOp} {e : Expr} {c₁ : Cursor} (hsign : c.sign? = some op)
      (he : below signPower c.advance = .ok (e, c₁)) :
      Operand below c (.unary (c₁.spanFrom c.here.start) op e) c₁
  | primary {e : Expr} {c₁ : Cursor} (hsign : c.sign? = none)
      (he : primary below c = .ok (e, c₁)) : Operand below c e c₁

/-- How `climb` succeeds that may read `n` operators after one more. -/
inductive Climb (below : Nat → Step Expr) (start least n : Nat) (left : Expr) (c : Cursor) :
    Expr → Cursor → Prop
  /-- No operator that binds as tightly as it must. -/
  | stop (hstop : ∀ b, c.binding? = some b → b.power < least) :
      Climb below start least n left c left c
  /-- An operator, its right operand and further operators. -/
  | more {b : Binding} {right e : Expr} {c₁ c₂ : Cursor} (hb : c.binding? = some b)
      (hleast : least ≤ b.power) (hright : below b.right c.advance = .ok (right, c₁))
      (hrest : climb below start least n (.binary (c₁.spanFrom start) b.op left right) c₁
        = .ok (e, c₂)) : Climb below start least n left c e c₂

section

variable {below : Nat → Step Expr} {c c' : Cursor} {e : Expr} {es : List Expr} {n : Nat}

theorem others_eq_ok {trailing : Bool} :
    others below trailing (n + 1) c = .ok (es, c') ↔ Others below trailing n c es c' := by
  rw [others]
  constructor
  · intro h
    split at h
    · rename_i hcomma
      dsimp only at h
      split at h
      · rename_i hlast
        cases h
        rw [Bool.and_eq_true] at hlast
        exact .last hcomma hlast.1 hlast.2
      · rename_i hmore
        obtain ⟨⟨e, c₁⟩, he, h⟩ := bind_eq_ok h
        obtain ⟨⟨es', c₂⟩, hes, h⟩ := bind_eq_ok h
        cases h
        exact .more hcomma (Bool.eq_false_iff.2 hmore) he hes
    · rename_i hcomma
      cases h
      exact .stop (Bool.eq_false_iff.2 hcomma)
  · intro h
    cases h with
    | stop hcomma => exact if_neg (Bool.eq_false_iff.1 hcomma)
    | last hcomma htrailing hclose =>
      rw [if_pos hcomma]
      exact if_pos (by rw [htrailing, hclose]; rfl)
    | more hcomma hopen he hes =>
      rw [if_pos hcomma]
      refine (if_neg (Bool.eq_false_iff.1 hopen)).trans ?_
      exact (bind_of_ok he).trans (bind_of_ok hes)

theorem arguments_eq_ok : arguments below c = .ok (es, c') ↔ Arguments below c es c' := by
  constructor
  · intro h
    obtain ⟨c₁, hopen, h⟩ := bind_eq_ok h
    split at h
    · rename_i hclose
      cases h
      exact .empty hopen hclose
    · rename_i hsome
      obtain ⟨⟨e, c₂⟩, he, h⟩ := bind_eq_ok h
      obtain ⟨⟨es', c₃⟩, hes, h⟩ := bind_eq_ok h
      obtain ⟨c₄, hclose, h⟩ := bind_eq_ok h
      cases h
      exact .cons hopen (Bool.eq_false_iff.2 hsome) he hes hclose
  · intro h
    cases h with
    | empty hopen hclose => exact (bind_of_ok hopen).trans (if_pos hclose)
    | cons hopen hsome he hes hclose =>
      refine (bind_of_ok hopen).trans ((if_neg (Bool.eq_false_iff.1 hsome)).trans ?_)
      exact (bind_of_ok he).trans ((bind_of_ok hes).trans (bind_of_ok hclose))

theorem parenthesized_eq_ok :
    parenthesized below c = .ok (e, c') ↔ Parenthesized below c e c' := by
  constructor
  · intro h
    obtain ⟨c₁, hopen, h⟩ := bind_eq_ok h
    split at h
    · cases h
    rename_i hsome
    obtain ⟨⟨e', c₂⟩, he, h⟩ := bind_eq_ok h
    dsimp only at h
    split at h
    · rename_i hcomma
      obtain ⟨⟨es, c₃⟩, hes, h⟩ := bind_eq_ok h
      obtain ⟨c₄, hclose, h⟩ := bind_eq_ok h
      cases h
      exact .tuple hopen (Bool.eq_false_iff.2 hsome) he hcomma hes hclose
    · rename_i hcomma
      obtain ⟨c₃, hclose, h⟩ := bind_eq_ok h
      cases h
      exact .group hopen (Bool.eq_false_iff.2 hsome) he (Bool.eq_false_iff.2 hcomma) hclose
  · intro h
    cases h with
    | group hopen hsome he hcomma hclose =>
      refine (bind_of_ok hopen).trans ((if_neg (Bool.eq_false_iff.1 hsome)).trans ?_)
      refine (bind_of_ok he).trans ((if_neg (Bool.eq_false_iff.1 hcomma)).trans ?_)
      exact bind_of_ok hclose
    | tuple hopen hsome he hcomma hes hclose =>
      refine (bind_of_ok hopen).trans ((if_neg (Bool.eq_false_iff.1 hsome)).trans ?_)
      refine (bind_of_ok he).trans ((if_pos hcomma).trans ?_)
      exact (bind_of_ok hes).trans (bind_of_ok hclose)

theorem primary_eq_ok : primary below c = .ok (e, c') ↔ Primary below c e c' := by
  rw [primary]
  dsimp only
  constructor
  · intro h
    split at h
    · rename_i text htoken
      split at h
      · cases h
      rename_i v hv
      split at h
      · cases h
      rename_i hnext
      cases h
      exact .number htoken hv (Bool.eq_false_iff.2 hnext)
    · rename_i name htoken
      split at h
      · rename_i hopen
        obtain ⟨⟨args, c₁⟩, hargs, h⟩ := bind_eq_ok h
        cases h
        exact .call htoken hopen hargs
      · rename_i hnext
        cases h
        exact .ident htoken (Bool.eq_false_iff.2 hnext)
    · rename_i htoken
      obtain ⟨⟨e', c₁⟩, he, h⟩ := bind_eq_ok h
      dsimp only at h
      split at h
      · cases h
      rename_i hnext
      cases h
      exact .parens htoken he (Bool.eq_false_iff.2 hnext)
    · cases h
  · intro h
    cases h with
    | number htoken hv hnext =>
      rw [htoken]
      dsimp only
      rw [hv]
      exact if_neg (Bool.eq_false_iff.1 hnext)
    | ident htoken hnext =>
      rw [htoken]
      exact if_neg (Bool.eq_false_iff.1 hnext)
    | call htoken hopen hargs =>
      rw [htoken]
      exact (if_pos hopen).trans (bind_of_ok hargs)
    | parens htoken he hnext =>
      rw [htoken]
      exact (bind_of_ok he).trans (if_neg (Bool.eq_false_iff.1 hnext))

theorem operand_eq_ok : operand below c = .ok (e, c') ↔ Operand below c e c' := by
  rw [operand]
  constructor
  · intro h
    split at h
    · rename_i op hsign
      obtain ⟨⟨x, c₁⟩, hx, h⟩ := bind_eq_ok h
      cases h
      exact .signed hsign hx
    · rename_i hsign
      exact .primary hsign h
  · intro h
    cases h with
    | signed hsign he =>
      rw [hsign]
      exact bind_of_ok he
    | primary hsign he =>
      rw [hsign]
      exact he

/-- The loop ends where no operator binds as tightly as it must. -/
theorem climb_stop {start least m : Nat} (h : ∀ b, c.binding? = some b → b.power < least) :
    climb below start least m e c = .ok (e, c) := by
  cases m with
  | zero => rw [climb]
  | succ m =>
    rw [climb]
    cases hb : c.binding? with
    | none => rfl
    | some b =>
      dsimp only
      rw [if_pos (h b hb)]

/-- One more operator. -/
theorem climb_step {start least : Nat} {left right : Expr} {b : Binding} {c₁ : Cursor}
    (hb : c.binding? = some b) (hleast : least ≤ b.power)
    (hright : below b.right c.advance = .ok (right, c₁)) :
    climb below start least (n + 1) left c
      = climb below start least n (.binary (c₁.spanFrom start) b.op left right) c₁ := by
  rw [climb, hb]
  exact (if_neg (Nat.not_lt.2 hleast)).trans (bind_of_ok hright)

theorem climb_eq_ok {start least : Nat} {left : Expr} :
    climb below start least (n + 1) left c = .ok (e, c') ↔ Climb below start least n left c e c' := by
  constructor
  · intro h
    rw [climb] at h
    split at h
    · rename_i hnone
      cases h
      exact .stop fun b hb => by rw [hnone] at hb; cases hb
    · rename_i b hb
      split at h
      · rename_i hless
        cases h
        refine .stop fun b' hb' => ?_
        rw [hb] at hb'
        cases hb'
        exact hless
      · rename_i hmore
        obtain ⟨⟨right, c₁⟩, hright, h⟩ := bind_eq_ok h
        exact .more hb (Nat.le_of_not_lt hmore) hright h
  · intro h
    cases h with
    | stop hstop => exact climb_stop hstop
    | more hb hleast hright hrest => exact (climb_step hb hleast hright).trans hrest

end

end Parser

end NodeFormula
