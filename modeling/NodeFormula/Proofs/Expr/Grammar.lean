import NodeFormula.Expr.Parser
/-!
# NodeFormula — the grammar of expressions

Phrases from the loosest to the tightest: comparisons, `|`, `^`, `&`, sums, products,
signed operands, powers, applied names and atoms. A phrase of the first six is a chain of
operators that groups to the left, a power groups to the right through the signed operand
behind `**`, and only a bare name is applied. `Phrase.Derives` relates the tokens of a
phrase to its tree. The tree is *bare*: the grammar does not say where a token stands.
-/

namespace NodeFormula

namespace Expr

mutual

/-- A tree without the places it was read from. -/
def bare : Expr → Expr
  | number _ v t => number (.point 0) v t
  | ident _ name => ident (.point 0) name
  | binary _ op l r => binary (.point 0) op l.bare r.bare
  | unary _ op x => unary (.point 0) op x.bare
  | call _ f args => call (.point 0) f (bareAll args)
  | tuple _ items => tuple (.point 0) (bareAll items)

/-- Trees without the places they were read from. -/
def bareAll : List Expr → List Expr
  | [] => []
  | e :: es => e.bare :: bareAll es

end

end Expr

/-- The kinds of phrases. -/
inductive Phrase where
  | comparison | bitOr | bitXor | bitAnd | sum | product | signed | power | applied | atom
  deriving DecidableEq, Repr

namespace Phrase

/-- The phrase that binds just tighter. -/
def tighter? : Phrase → Option Phrase
  | comparison => some bitOr
  | bitOr => some bitXor
  | bitXor => some bitAnd
  | bitAnd => some sum
  | sum => some product
  | product => some signed
  | signed => some power
  | power => some applied
  | applied => some atom
  | atom => none

/-- The operators of a chain that groups to the left. -/
def operators : Phrase → List BinaryOp
  | comparison => [.eq, .ne, .lt, .le, .gt, .ge]
  | bitOr => [.bitOr]
  | bitXor => [.bitXor]
  | bitAnd => [.bitAnd]
  | sum => [.add, .sub]
  | product => [.mul, .div, .floorDiv, .mod, .matMul]
  | signed | power | applied | atom => []

/-- The tokens of a part and the tree of the part. -/
abbrev Part := List Token × Expr

/-- Parts with a comma in front of each. -/
def behindCommas (parts : List Part) : List Token :=
  parts.flatMap fun x => .symbol .comma :: x.1

/-- **The grammar.** The tokens are a phrase of the kind, and this is its tree. -/
inductive Derives : Phrase → List Token → Expr → Prop
  | number {text : String} {v : Float} (hv : readFloat? text = some v) :
    Derives .atom [.number text] (.number (.point 0) v text)
  | ident (name : String) : Derives .atom [.ident name] (.ident (.point 0) name)
  | group {ts : List Token} {e : Expr} (he : Derives .comparison ts e) :
    Derives .atom (.symbol .lparen :: ts ++ [.symbol .rparen]) e
  /-- A comma may close a tuple, and closes one of a single element. -/
  | tuple {first : Part} {rest : List Part} {closing : List Token}
    (hfirst : Derives .comparison first.1 first.2)
    (hrest : ∀ x ∈ rest, Derives .comparison x.1 x.2)
    (hclosing : closing = [.symbol .comma] ∨ closing = [] ∧ rest ≠ []) :
    Derives .atom
      (.symbol .lparen :: first.1 ++ behindCommas rest ++ closing ++ [.symbol .rparen])
      (.tuple (.point 0) (first.2 :: rest.map Prod.snd))
  | callEmpty (f : String) :
    Derives .applied [.ident f, .symbol .lparen, .symbol .rparen] (.call (.point 0) f [])
  | call (f : String) {first : Part} {rest : List Part}
    (hfirst : Derives .comparison first.1 first.2)
    (hrest : ∀ x ∈ rest, Derives .comparison x.1 x.2) :
    Derives .applied
      (.ident f :: .symbol .lparen :: first.1 ++ behindCommas rest ++ [.symbol .rparen])
      (.call (.point 0) f (first.2 :: rest.map Prod.snd))
  | power {ts us : List Token} {l r : Expr} (hl : Derives .applied ts l)
    (hr : Derives .signed us r) :
    Derives .power (ts ++ .symbol .starStar :: us) (.binary (.point 0) .pow l r)
  | signed {s : Symbol} {op : UnaryOp} {ts : List Token} {x : Expr} (hs : s.text = op.symbol)
    (hx : Derives .signed ts x) :
    Derives .signed (.symbol s :: ts) (.unary (.point 0) op x)
  | chain {p q : Phrase} {s : Symbol} {op : BinaryOp} {ts us : List Token} {l r : Expr}
    (hpq : p.tighter? = some q) (hop : op ∈ p.operators) (hs : s.text = op.symbol)
    (hl : Derives p ts l) (hr : Derives q us r) :
    Derives p (ts ++ .symbol s :: us) (.binary (.point 0) op l r)
  | lift {p q : Phrase} {ts : List Token} {e : Expr} (hpq : p.tighter? = some q)
    (he : Derives q ts e) : Derives p ts e

/-- How tight a phrase binds. -/
def rank : Phrase → Nat
  | comparison => 0 | bitOr => 1 | bitXor => 2 | bitAnd => 3 | sum => 4 | product => 5
  | signed => 6 | power => 7 | applied => 8 | atom => 9

theorem rank_inj {p q : Phrase} (h : p.rank = q.rank) : p = q := by
  cases p <;> cases q <;> first | rfl | cases h

theorem exists_tighter {p : Phrase} (h : p.rank < 9) :
    ∃ q, p.tighter? = some q ∧ q.rank = p.rank + 1 := by
  cases p <;> first | exact ⟨_, rfl, rfl⟩ | exact absurd h (by decide)

theorem rank_le (p : Phrase) : p.rank ≤ 9 := by
  cases p <;> decide

namespace Derives

variable {p q : Phrase} {ts : List Token} {e : Expr}

/-- A phrase is also a phrase of every looser kind. -/
theorem loosen (h : Derives q ts e) (hpq : p.rank ≤ q.rank) : Derives p ts e := by
  -- by induction on how many kinds lie between the two
  obtain ⟨n, hn⟩ : ∃ n, q.rank = p.rank + n := ⟨q.rank - p.rank, by omega⟩
  induction n generalizing p with
  | zero =>
    rw [rank_inj (show p.rank = q.rank by omega)]
    exact h
  | succ n ih =>
    have hlt := q.rank_le
    obtain ⟨p', htighter, hrank⟩ := exists_tighter (show p.rank < 9 by omega)
    exact lift htighter (ih (by omega) (by omega))

end Derives

end Phrase

end NodeFormula
