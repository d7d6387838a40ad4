import NodeFormula.Proofs.Expr.Sound
import NodeFormula.Proofs.Token.Written
/-!
# NodeFormula — the parser accepts what is in the grammar

`Accepts n p ts t` says that a parser with `n` levels below it reads the tokens `ts` of a
phrase of kind `p`, wherever they stand, and arrives at the tree `t`. There is one lemma for
each way to make a phrase; each says how many levels it takes.
-/

namespace NodeFormula

open Phrase

namespace Phrase

/-- The least power of the operators of a phrase. -/
def floor : Phrase → Nat
  | comparison => 5 | bitOr => 10 | bitXor => 12 | bitAnd => 14 | sum => 20 | product => 30
  | signed | power | applied | atom => 50

/-- What may stand behind a phrase: nothing that would make more of it. -/
structure MayPrecede (p : Phrase) (rest : List Token) : Prop where
  paren : rest.head? ≠ some (.symbol .lparen)
  operator : ∀ s b, rest.head? = some (.symbol s) → Parser.binding? s = some b → b.power ≤ p.follow

theorem MayPrecede.mono {p q : Phrase} {rest : List Token} (h : p.MayPrecede rest)
    (hpq : p.follow ≤ q.follow) : q.MayPrecede rest :=
  ⟨h.paren, fun s b hs hb => Nat.le_trans (h.operator s b hs hb) hpq⟩

/-- A delimiter may stand behind any phrase. -/
theorem mayPrecede_of_head {p : Phrase} {rest : List Token} {s : Symbol} (h : rest.head? = some (.symbol s))
    (hs : s ≠ .lparen) (hb : Parser.binding? s = none) : p.MayPrecede rest := by
  refine ⟨fun hp => ?_, fun s' b hs' hb' => ?_⟩
  · rw [h] at hp
    cases hp
    exact hs rfl
  · rw [h] at hs'
    cases hs'
    rw [hb] at hb'
    cases hb'

theorem mayPrecede_nil {p : Phrase} : p.MayPrecede [] where
  paren h := by cases h
  operator _ _ h := by cases h

end Phrase

namespace Parser

/-! ## Operators by their spelling -/

theorem binding?_of_operator {p : Phrase} {s : Symbol} {op : BinaryOp} (hop : op ∈ p.operators)
    (hs : s.text = op.symbol) : binding? s = some (.left op p.follow) := by
  have hall : ∀ s ∈ Symbol.all, ∀ op ∈ p.operators, s.text = op.symbol →
      binding? s = some (.left op p.follow) := by
    cases p <;> decide
  exact hall s s.mem_all op hop hs

theorem sign?_of_text {s : Symbol} {op : UnaryOp} (hs : s.text = op.symbol) : sign? s = some op := by
  have hall : ∀ s ∈ Symbol.all, s.text = op.symbol → sign? s = some op := by
    cases op <;> decide
  exact hall s s.mem_all hs

namespace Cursor

variable {c : Cursor} {t : Token} {ts : List Token}

theorem head_of_tokens (h : c.tokens = t :: ts) : c.tokens.head? = some t := by
  rw [h, List.head?_cons]

theorem advance_of_tokens (h : c.tokens = t :: ts) : c.advance.tokens = ts := by
  rw [tokens_advance, h, List.tail_cons]

theorem sees_of_tokens {s : Symbol} (h : c.tokens = .symbol s :: ts) : c.sees s :=
  sees_iff.2 (head_of_tokens h)

theorem not_sees {s : Symbol} (h : c.tokens.head? ≠ some (.symbol s)) : c.sees s = false :=
  Bool.eq_false_iff.2 fun hs => h (sees_iff.1 hs)

end Cursor

theorem expect_of_tokens {s : Symbol} {c : Cursor} {ts : List Token}
    (h : c.tokens = .symbol s :: ts) : expect s c = .ok c.advance :=
  expect_eq_ok.2 ⟨Cursor.sees_of_tokens h, rfl⟩

/-! ## Phrases -/

/-- **The parser reads a phrase.** From a cursor in front of the tokens it comes to the loop
over the operators behind them, with the tree of the phrase in hand. -/
def Accepts (n : Nat) (p : Phrase) (ts : List Token) (t : Expr) : Prop :=
  ∀ limit least c rest, c.tokens = ts ++ rest → p.MayPrecede rest → least ≤ p.floor →
    ∃ e c' m, chain (levelled limit n) least c = climb (levelled limit n) c.here.start least m e c' ∧
      e.bare = t ∧ c'.tokens = rest ∧ rest.length ≤ m

/-- The parser reads an operand without a sign. -/
def AcceptsPrimary (n : Nat) (ts : List Token) (t : Expr) : Prop :=
  ∀ limit c rest, c.tokens = ts ++ rest → rest.head? ≠ some (.symbol .lparen) →
    ∃ e c', primary (levelled limit n) c = .ok (e, c') ∧ e.bare = t ∧ c'.tokens = rest

section

variable {n : Nat} {p q : Phrase} {ts us rest : List Token} {l r t : Expr} {c : Cursor}

/-- A phrase is read to its end where no operator of it follows. -/
theorem Accepts.expr (h : Accepts n p ts t) (limit : Nat) {least : Nat} (hc : c.tokens = ts ++ rest)
    (hrest : p.MayPrecede rest) (hleast : least ≤ p.floor)
    (hstop : ∀ s b, rest.head? = some (.symbol s) → binding? s = some b → b.power < least) :
    ∃ e c', levelled limit (n + 1) least c = .ok (e, c') ∧ e.bare = t ∧ c'.tokens = rest := by
  obtain ⟨e, c', m, hchain, he, hc', -⟩ := h limit least c rest hc hrest hleast
  refine ⟨e, c', ?_, he, hc'⟩
  rw [levelled, hchain]
  refine climb_stop fun b hb => ?_
  obtain ⟨s, hs, hb⟩ := Cursor.binding?_eq_some.1 hb
  exact hstop s b (hc' ▸ hs) hb

theorem Accepts.mono (h : Accepts n q ts t) (hfollow : p.follow ≤ q.follow)
    (hfloor : p.floor ≤ q.floor) : Accepts n p ts t := by
  intro limit least c rest hc hrest hleast
  exact h limit least c rest hc (hrest.mono hfollow) (Nat.le_trans hleast hfloor)

theorem Accepts.lift (hpq : p.tighter? = some q) (h : Accepts n q ts t) : Accepts n p ts t := by
  refine h.mono ?_ ?_
  all_goals cases p <;> cases hpq <;> decide

/-- **One operator.** It may stand behind its left operand `l`, and what may stand behind the
whole belongs neither to its right operand nor behind it. -/
theorem Accepts.binary {p' : Phrase} {s : Symbol} {b : Binding} (hs : binding? s = some b)
    (hl : Accepts (n + 1) p ts l) (hr : Accepts n q us r) (hafter : b.power ≤ p.follow)
    (hfloor : p'.floor ≤ b.power) (hfloor' : p'.floor ≤ p.floor) (hright : b.right ≤ q.floor)
    (hfollow : p'.follow ≤ q.follow) (hfollow' : p'.follow < b.right) :
    Accepts (n + 1) p' (ts ++ .symbol s :: us) (.binary (.point 0) b.op l r) := by
  intro limit least c rest hc hrest hleast
  have hbehind : p.MayPrecede (.symbol s :: us ++ rest) := by
    refine ⟨?_, ?_⟩
    · rintro hparen
      cases hparen
      cases hs
    · rintro s' b' hs' hb'
      cases hs'
      rw [hs] at hb'
      cases hb'
      exact hafter
  obtain ⟨e, c₁, m, hchain, he, hc₁, hm⟩ :=
    hl limit least c (.symbol s :: us ++ rest) (by rw [hc]; simp) hbehind (by omega)
  obtain ⟨m, rfl⟩ : ∃ k, m = k + 1 := ⟨m - 1, by simp at hm; omega⟩
  have hadvance : c₁.advance.tokens = us ++ rest := Cursor.advance_of_tokens hc₁
  obtain ⟨e', c₂, hexpr, he', hc₂⟩ :=
    hr.expr limit hadvance (hrest.mono hfollow) hright fun s' b' hs' hb' =>
      Nat.lt_of_le_of_lt (hrest.operator s' b' hs' hb') hfollow'
  have hbinding : c₁.binding? = some b :=
    Cursor.binding?_eq_some.2 ⟨s, Cursor.head_of_tokens hc₁, hs⟩
  refine ⟨.binary (c₂.spanFrom c.here.start) b.op e e', c₂, m, ?_, ?_, hc₂, ?_⟩
  · rw [hchain, climb_step hbinding (by omega) hexpr]
  · rw [Expr.bare, he, he']
  · simp only [List.cons_append, List.length_cons, List.length_append] at hm
    omega

theorem Accepts.chain {s : Symbol} {op : BinaryOp} (hpq : p.tighter? = some q)
    (hop : op ∈ p.operators) (hs : s.text = op.symbol) (hl : Accepts (n + 1) p ts l)
    (hr : Accepts n q us r) :
    Accepts (n + 1) p (ts ++ .symbol s :: us) (.binary (.point 0) op l r) := by
  have hb := binding?_of_operator hop hs
  -- only the phrases that group to the left have operators
  have hlevel : p.floor = p.follow ∧ p.follow + 1 ≤ q.floor ∧ p.follow ≤ q.follow := by
    cases p <;> cases hpq
    case signed | power | applied => cases hop
    all_goals decide
  exact .binary hb hl hr (Nat.le_refl _) (Nat.le_of_eq hlevel.1) (Nat.le_refl _) hlevel.2.1
    hlevel.2.2 (Nat.lt_succ_self _)

theorem Accepts.power (hl : Accepts (n + 1) .applied ts l) (hr : Accepts n .signed us r) :
    Accepts (n + 1) .power (ts ++ .symbol .starStar :: us) (.binary (.point 0) .pow l r) := by
  have hb : binding? .starStar = some ⟨.pow, 50, 50⟩ := rfl
  exact .binary hb hl hr (by decide) (by decide) (by decide) (by decide) (by decide) (by decide)

theorem Accepts.signed {s : Symbol} {op : UnaryOp} (hs : s.text = op.symbol)
    (hx : Accepts n .signed ts t) :
    Accepts (n + 1) .signed (.symbol s :: ts) (.unary (.point 0) op t) := by
  intro limit least c rest hc hrest hleast
  have hsign : c.sign? = some op :=
    Cursor.sign?_eq_some.2 ⟨s, Cursor.head_of_tokens hc, sign?_of_text hs⟩
  have hadvance : c.advance.tokens = ts ++ rest := Cursor.advance_of_tokens hc
  obtain ⟨e, c', hexpr, he, hc'⟩ :=
    hx.expr limit hadvance hrest (show signPower ≤ Phrase.signed.floor by decide)
      fun s' b' hs' hb' => Nat.lt_of_le_of_lt (hrest.operator s' b' hs' hb') (by decide)
  refine ⟨.unary (c'.spanFrom c.here.start) op e, c', c'.ahead.length, ?_, ?_, hc', ?_⟩
  · exact bind_of_ok (operand_eq_ok.2 (.signed hsign hexpr))
  · rw [Expr.bare, he]
  · exact Nat.le_of_eq (by rw [c'.length_ahead, hc'])

/-- What opens with a sign is no operand without one. -/
theorem sign?_of_primary {below : Nat → Step Expr} {x : Expr × Cursor}
    (h : primary below c = .ok x) : c.sign? = none := by
  rw [Cursor.sign?]
  rw [primary] at h
  cases htoken : c.token? with
  | none => rfl
  | some t =>
    cases t with
    | number text => rfl
    | ident name => rfl
    | symbol s =>
      rw [htoken] at h
      cases s
      case plus | minus | tilde => cases h
      all_goals rfl

theorem operand_of_primary {below : Nat → Step Expr} {e : Expr} {c' : Cursor}
    (h : primary below c = .ok (e, c')) : operand below c = .ok (e, c') :=
  operand_eq_ok.2 (.primary (sign?_of_primary h) h)

theorem AcceptsPrimary.accepts (h : AcceptsPrimary n ts t) : Accepts n .atom ts t := by
  intro limit least c rest hc hrest hleast
  obtain ⟨e, c', hprimary, he, hc'⟩ := h limit c rest hc hrest.paren
  refine ⟨e, c', c'.ahead.length, ?_, he, hc', ?_⟩
  · exact bind_of_ok (operand_of_primary hprimary)
  · exact Nat.le_of_eq (by rw [c'.length_ahead, hc'])

/-! ## Operands without a sign -/

theorem acceptsPrimary_number {text : String} {v : Float} (hv : readFloat? text = some v) :
    AcceptsPrimary n [.number text] (.number (.point 0) v text) := by
  intro limit c rest hc hrest
  have hadvance : c.advance.tokens = rest := Cursor.advance_of_tokens hc
  refine ⟨.number (c.advance.spanFrom c.here.start) v text, c.advance, ?_, rfl, hadvance⟩
  refine primary_eq_ok.2 (.number ?_ hv (Cursor.not_sees (hadvance ▸ hrest)))
  rw [c.token?_eq, Cursor.head_of_tokens hc]

theorem acceptsPrimary_ident (name : String) :
    AcceptsPrimary n [.ident name] (.ident (.point 0) name) := by
  intro limit c rest hc hrest
  have hadvance : c.advance.tokens = rest := Cursor.advance_of_tokens hc
  refine ⟨.ident (c.advance.spanFrom c.here.start) name, c.advance, ?_, rfl, hadvance⟩
  refine primary_eq_ok.2 (.ident ?_ (Cursor.not_sees (hadvance ▸ hrest)))
  rw [c.token?_eq, Cursor.head_of_tokens hc]

/-- No expression opens with a closing parenthesis. -/
theorem not_sees_rparen {limit levels least : Nat} {x : Expr × Cursor}
    (h : Parser.levelled limit levels least c = .ok x) : c.sees .rparen = false := by
  refine Cursor.not_sees fun hhead => ?_
  cases levels with
  | zero => cases h
  | succ levels =>
    obtain ⟨left, hleft, -⟩ := bind_eq_ok h
    rw [operand, Cursor.sign?, c.token?_eq, hhead] at hleft
    dsimp only [Parser.sign?] at hleft
    rw [primary, c.token?_eq, hhead] at hleft
    cases hleft

/-- An element of a list is read up to the delimiter behind it. -/
theorem Accepts.element {s : Symbol} (h : Accepts n .comparison ts t) (limit : Nat)
    (hc : c.tokens = ts ++ rest) (hrest : rest.head? = some (.symbol s))
    (hs : s = .comma ∨ s = .rparen) :
    ∃ e c', Parser.levelled limit (n + 1) 0 c = .ok (e, c') ∧ e.bare = t ∧ c'.tokens = rest := by
  have hnone : s ≠ .lparen ∧ binding? s = none := by
    rcases hs with rfl | rfl <;> decide
  refine h.expr limit hc (mayPrecede_of_head hrest hnone.1 hnone.2) (Nat.zero_le _) ?_
  intro s' b hs' hb
  rw [hrest] at hs'
  cases hs'
  rw [hnone.2] at hb
  cases hb

/-- The tokens of further elements and of what closes the list open with a delimiter. -/
theorem head_behindCommas (parts : List Part) {closing : List Token}
    (hclosing : closing = [] ∨ closing = [.symbol .comma]) :
    ∃ s, (behindCommas parts ++ closing ++ .symbol .rparen :: rest).head? = some (.symbol s) ∧
      (s = .comma ∨ s = .rparen) := by
  cases parts with
  | nil =>
    rcases hclosing with rfl | rfl
    · exact ⟨.rparen, rfl, .inr rfl⟩
    · exact ⟨.comma, rfl, .inl rfl⟩
  | cons x parts => exact ⟨.comma, rfl, .inl rfl⟩

theorem length_le_behindCommas {parts : List Part} {x : Part} (h : x ∈ parts) :
    x.1.length ≤ (behindCommas parts).length := by
  induction parts with
  | nil => cases h
  | cons y parts ih =>
    simp only [behindCommas, List.flatMap_cons, List.length_append, List.length_cons] at ih ⊢
    rcases List.mem_cons.1 h with rfl | h
    · omega
    · have := ih h
      omega

theorem accepts_others (trailing : Bool) {parts : List Part} {closing : List Token} {m : Nat}
    (hparts : ∀ x ∈ parts, Accepts n .comparison x.1 x.2)
    (hclosing : closing = [] ∨ trailing = true ∧ closing = [.symbol .comma]) (limit : Nat)
    (hc : c.tokens = behindCommas parts ++ closing ++ .symbol .rparen :: rest)
    (hm : c.tokens.length ≤ m) :
    ∃ es c', others (Parser.levelled limit (n + 1)) trailing m c = .ok (es, c') ∧
      Expr.bareAll es = parts.map Prod.snd ∧ c'.tokens = .symbol .rparen :: rest := by
  have hcomma : closing = [] ∨ closing = [.symbol .comma] := hclosing.imp_right And.right
  obtain ⟨m, rfl⟩ : ∃ k, m = k + 1 := ⟨m - 1, by rw [hc] at hm; simp at hm; omega⟩
  induction parts generalizing c m with
  | nil =>
    rcases hclosing with rfl | ⟨htrailing, rfl⟩
    · have hcomma : c.sees .comma = false := Cursor.not_sees (by rw [hc]; simp [behindCommas])
      exact ⟨[], c, others_eq_ok.2 (.stop hcomma), rfl, hc⟩
    · have hadvance : c.advance.tokens = .symbol .rparen :: rest := Cursor.advance_of_tokens hc
      exact ⟨[], c.advance, others_eq_ok.2 (.last (Cursor.sees_of_tokens hc) htrailing
        (Cursor.sees_of_tokens hadvance)), rfl, hadvance⟩
  | cons x parts ih =>
    obtain ⟨hx, hparts⟩ := List.forall_mem_cons.1 hparts
    obtain ⟨s, hhead, hs⟩ := @head_behindCommas rest parts closing hcomma
    have hfirst : c.tokens =
        .symbol .comma :: (x.1 ++ (behindCommas parts ++ closing ++ .symbol .rparen :: rest)) := by
      rw [hc]
      simp [behindCommas]
    have hadvance := Cursor.advance_of_tokens hfirst
    obtain ⟨e, c₁, hexpr, he, hc₁⟩ := hx.element limit hadvance hhead hs
    have hlen : c₁.tokens.length ≤ m := by
      rw [hfirst] at hm
      simp only [List.length_cons, List.length_append] at hm
      rw [hc₁]
      simp only [List.length_cons, List.length_append]
      omega
    obtain ⟨k, rfl⟩ : ∃ k, m = k + 1 := ⟨m - 1, by rw [hc₁] at hlen; simp at hlen; omega⟩
    obtain ⟨es, c₂, hothers, hes, hc₂⟩ := ih hparts hc₁ k hlen
    refine ⟨e :: es, c₂, ?_, ?_, hc₂⟩
    · refine others_eq_ok.2 (.more (Cursor.sees_of_tokens hfirst) ?_ hexpr hothers)
      rw [not_sees_rparen hexpr, Bool.and_false]
    · rw [Expr.bareAll, he, hes, List.map_cons]

theorem primary_of_parenthesized {below : Nat → Step Expr} {e : Expr} {c' : Cursor}
    (h : parenthesized below c = .ok (e, c')) (hnext : c'.sees .lparen = false) :
    primary below c = .ok (e, c') := by
  have hopen : c.sees .lparen := by
    obtain ⟨c₁, hopen, -⟩ := bind_eq_ok h
    exact (expect_eq_ok.1 hopen).1
  exact primary_eq_ok.2 (.parens (beq_iff_eq.1 hopen) h hnext)

theorem Accepts.group (h : Accepts n .comparison ts t) :
    AcceptsPrimary (n + 1) (.symbol .lparen :: ts ++ [.symbol .rparen]) t := by
  intro limit c rest hc hrest
  have hopen : c.tokens = .symbol .lparen :: (ts ++ .symbol .rparen :: rest) := by
    rw [hc]
    simp
  obtain ⟨e, c₁, hexpr, he, hc₁⟩ :=
    h.element limit (Cursor.advance_of_tokens hopen) (s := .rparen) rfl (.inr rfl)
  have hclose : c₁.advance.tokens = rest := Cursor.advance_of_tokens hc₁
  refine ⟨e, c₁.advance, ?_, he, hclose⟩
  have hgroup : parenthesized (Parser.levelled limit (n + 1)) c = .ok (e, c₁.advance) :=
    parenthesized_eq_ok.2 (.group (expect_of_tokens hopen) (not_sees_rparen hexpr) hexpr
      (Cursor.not_sees (by rw [hc₁]; simp)) (expect_of_tokens hc₁))
  exact primary_of_parenthesized hgroup (Cursor.not_sees (hclose ▸ hrest))

theorem Accepts.tuple {first : Part} {parts : List Part} {closing : List Token}
    (hfirst : Accepts n .comparison first.1 first.2)
    (hparts : ∀ x ∈ parts, Accepts n .comparison x.1 x.2)
    (hclosing : closing = [.symbol .comma] ∨ closing = [] ∧ parts ≠ []) :
    AcceptsPrimary (n + 1)
      (.symbol .lparen :: first.1 ++ behindCommas parts ++ closing ++ [.symbol .rparen])
      (.tuple (.point 0) (first.2 :: parts.map Prod.snd)) := by
  intro limit c rest hc hrest
  have hcomma : closing = [] ∨ closing = [.symbol .comma] := hclosing.symm.imp_left And.left
  have hopen : c.tokens = .symbol .lparen ::
      (first.1 ++ (behindCommas parts ++ closing ++ .symbol .rparen :: rest)) := by
    rw [hc]
    simp
  obtain ⟨s, hhead, hs⟩ := @head_behindCommas rest parts closing hcomma
  obtain ⟨e, c₁, hexpr, he, hc₁⟩ :=
    hfirst.element limit (Cursor.advance_of_tokens hopen) hhead hs
  obtain ⟨es, c₂, hothers, hes, hc₂⟩ := accepts_others true hparts
    (hcomma.imp_right fun h => ⟨rfl, h⟩) limit hc₁ (Nat.le_of_eq c₁.length_ahead.symm)
  have hclose : c₂.advance.tokens = rest := Cursor.advance_of_tokens hc₂
  have hsees : c₁.sees .comma := by
    rw [Cursor.sees_iff, hc₁]
    rcases hclosing with rfl | ⟨rfl, hne⟩
    · cases parts <;> rfl
    · cases parts with
      | nil => exact absurd rfl hne
      | cons x parts => rfl
  have htuple : parenthesized (Parser.levelled limit (n + 1)) c =
      .ok (.tuple (c₂.advance.spanFrom c.here.start) (e :: es), c₂.advance) :=
    parenthesized_eq_ok.2 (.tuple (expect_of_tokens hopen) (not_sees_rparen hexpr) hexpr hsees
      hothers (expect_of_tokens hc₂))
  refine ⟨_, _, primary_of_parenthesized htuple (Cursor.not_sees (hclose ▸ hrest)), ?_, hclose⟩
  rw [Expr.bare, Expr.bareAll, he, hes]

/-- A name in front of an opening parenthesis is applied. -/
theorem primary_of_arguments {below : Nat → Step Expr} {f : String} {es : List Expr} {c' : Cursor}
    (hc : c.tokens = .ident f :: .symbol .lparen :: ts)
    (hargs : arguments below c.advance = .ok (es, c')) :
    primary below c = .ok (.call (c'.spanFrom c.here.start) f es, c') := by
  refine primary_eq_ok.2 (.call ?_ (Cursor.sees_of_tokens (Cursor.advance_of_tokens hc)) hargs)
  rw [c.token?_eq, Cursor.head_of_tokens hc]

theorem acceptsPrimary_callEmpty (f : String) :
    AcceptsPrimary n [.ident f, .symbol .lparen, .symbol .rparen] (.call (.point 0) f []) := by
  intro limit c rest hc hrest
  have hopen : c.advance.tokens = .symbol .lparen :: .symbol .rparen :: rest :=
    Cursor.advance_of_tokens hc
  have hclose := Cursor.advance_of_tokens hopen
  have hargs : arguments (Parser.levelled limit n) c.advance = .ok ([], c.advance.advance.advance) :=
    arguments_eq_ok.2 (.empty (expect_of_tokens hopen) (Cursor.sees_of_tokens hclose))
  exact ⟨_, _, primary_of_arguments hc hargs, rfl, Cursor.advance_of_tokens hclose⟩

theorem Accepts.call (f : String) {first : Part} {parts : List Part}
    (hfirst : Accepts n .comparison first.1 first.2)
    (hparts : ∀ x ∈ parts, Accepts n .comparison x.1 x.2) :
    AcceptsPrimary (n + 1)
      (.ident f :: .symbol .lparen :: first.1 ++ behindCommas parts ++ [.symbol .rparen])
      (.call (.point 0) f (first.2 :: parts.map Prod.snd)) := by
  intro limit c rest hc hrest
  have hname : c.tokens = .ident f :: .symbol .lparen ::
      (first.1 ++ (behindCommas parts ++ [] ++ .symbol .rparen :: rest)) := by
    rw [hc]
    simp
  have hopen := Cursor.advance_of_tokens hname
  obtain ⟨s, hhead, hs⟩ := @head_behindCommas rest parts [] (.inl rfl)
  obtain ⟨e, c₁, hexpr, he, hc₁⟩ :=
    hfirst.element limit (Cursor.advance_of_tokens hopen) hhead hs
  obtain ⟨es, c₂, hothers, hes, hc₂⟩ := accepts_others false hparts
    (.inl rfl) limit hc₁ (Nat.le_of_eq c₁.length_ahead.symm)
  have hargs : arguments (Parser.levelled limit (n + 1)) c.advance = .ok (e :: es, c₂.advance) :=
    arguments_eq_ok.2 (.cons (expect_of_tokens hopen) (not_sees_rparen hexpr) hexpr hothers
      (expect_of_tokens hc₂))
  refine ⟨_, _, primary_of_arguments hname hargs, ?_, Cursor.advance_of_tokens hc₂⟩
  rw [Expr.bare, Expr.bareAll, he, hes]

end

/-- **Every phrase of the grammar is accepted**, if there are as many levels as tokens. -/
theorem accepts_of_derives {p : Phrase} {ts : List Token} {t : Expr} (h : Derives p ts t) {n : Nat}
    (hn : ts.length ≤ n) : Accepts n p ts t := by
  induction h generalizing n with
  | number hv => exact (acceptsPrimary_number hv).accepts
  | ident name => exact (acceptsPrimary_ident name).accepts
  | group he ih =>
    simp only [List.cons_append, List.length_cons, List.length_append] at hn
    obtain ⟨n, rfl⟩ : ∃ k, n = k + 1 := ⟨n - 1, by omega⟩
    exact (ih (by omega)).group.accepts
  | tuple hfirst hrest hclosing ih ihs =>
    simp only [List.cons_append, List.length_cons, List.length_append] at hn
    obtain ⟨n, rfl⟩ : ∃ k, n = k + 1 := ⟨n - 1, by omega⟩
    refine (Accepts.tuple (ih (by omega)) (fun x hx => ihs x hx ?_) hclosing).accepts
    have := length_le_behindCommas hx
    omega
  | callEmpty f => exact .lift rfl (acceptsPrimary_callEmpty f).accepts
  | call f hfirst hrest ih ihs =>
    simp only [List.cons_append, List.length_cons, List.length_append] at hn
    obtain ⟨n, rfl⟩ : ∃ k, n = k + 1 := ⟨n - 1, by omega⟩
    refine .lift rfl (Accepts.call f (ih (by omega)) (fun x hx => ihs x hx ?_)).accepts
    have := length_le_behindCommas hx
    omega
  | power hl hr ihl ihr =>
    simp only [List.length_cons, List.length_append] at hn
    obtain ⟨n, rfl⟩ : ∃ k, n = k + 1 := ⟨n - 1, by omega⟩
    exact .power (ihl (by omega)) (ihr (by omega))
  | signed hs hx ih =>
    rw [List.length_cons] at hn
    obtain ⟨n, rfl⟩ : ∃ k, n = k + 1 := ⟨n - 1, by omega⟩
    exact .signed hs (ih (by omega))
  | chain hpq hop hs hl hr ihl ihr =>
    simp only [List.length_cons, List.length_append] at hn
    obtain ⟨n, rfl⟩ : ∃ k, n = k + 1 := ⟨n - 1, by omega⟩
    exact .chain hpq hop hs (ihl (by omega)) (ihr (by omega))
  | lift hpq he ih => exact .lift hpq (ih hn)

end Parser

end NodeFormula
