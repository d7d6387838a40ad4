import NodeFormula.Proofs.Expr.Exact
/-!
# NodeFormula — printed expressions are read back

The text of an expression is fully parenthesised, so it is an operand without a sign. It
reads back as the expression, with one difference: a tuple of one element is printed as a
group, which is that element (`Expr.unwrapped`). An operator costs two levels of nesting, one
for its parentheses and one for its right operand.
-/

namespace NodeFormula

open Phrase

/-- The symbol of a binary operator. -/
def BinaryOp.toSymbol : BinaryOp → Symbol
  | add => .plus | sub => .minus | mul => .star | div => .slash | floorDiv => .slashSlash
  | mod => .percent | pow => .starStar | lt => .lt | le => .le | gt => .gt | ge => .ge
  | eq => .eqEq | ne => .bangEq | bitAnd => .amp | bitOr => .pipe | bitXor => .caret
  | matMul => .atSign

theorem BinaryOp.text_toSymbol (op : BinaryOp) : op.toSymbol.text = op.symbol := by
  cases op <;> rfl

/-- The symbol of a unary operator. -/
def UnaryOp.toSymbol : UnaryOp → Symbol
  | neg => .minus | pos => .plus | invert => .tilde

theorem UnaryOp.text_toSymbol (op : UnaryOp) : op.toSymbol.text = op.symbol := by
  cases op <;> rfl

namespace Expr

mutual

/-- A tree with every tuple of one element replaced by the element. -/
def unwrapped : Expr → Expr
  | number s v t => number s v t
  | ident s name => ident s name
  | binary s op l r => binary s op l.unwrapped r.unwrapped
  | unary s op x => unary s op x.unwrapped
  | call s f args => call s f (unwrappedAll args)
  | tuple s items =>
    match unwrappedAll items with
    | [x] => x
    | xs => tuple s xs

/-- Trees with every tuple of one element replaced by the element. -/
def unwrappedAll : List Expr → List Expr
  | [] => []
  | e :: es => e.unwrapped :: unwrappedAll es

end

mutual

/-- The tokens of a printed tree. -/
def tokens : Expr → List Token
  | number _ _ t => [.number t]
  | ident _ name => [.ident name]
  | binary _ op l r =>
    .symbol .lparen :: (l.tokens ++ .symbol op.toSymbol :: r.tokens) ++ [.symbol .rparen]
  | unary _ op x => .symbol .lparen :: (.symbol op.toSymbol :: x.tokens) ++ [.symbol .rparen]
  | call _ f args => .ident f :: .symbol .lparen :: tokensAll args ++ [.symbol .rparen]
  | tuple _ items => .symbol .lparen :: tokensAll items ++ [.symbol .rparen]

/-- The tokens of printed trees with commas between them. -/
def tokensAll : List Expr → List Token
  | [] => []
  | [e] => e.tokens
  | e :: e' :: es => e.tokens ++ .symbol .comma :: tokensAll (e' :: es)

end

mutual

/-- A tree that can be written: its words are words of the lexer, its numbers are what their
texts say, and no tuple is empty. -/
def Legible : Expr → Prop
  | number _ v t => IsNumeral t.toList ∧ readFloat? t = some v
  | ident _ name => IsName name.toList
  | binary _ _ l r => l.Legible ∧ r.Legible
  | unary _ _ x => x.Legible
  | call _ f args => IsName f.toList ∧ LegibleAll args
  | tuple _ items => items ≠ [] ∧ LegibleAll items

/-- Trees that can be written. -/
def LegibleAll : List Expr → Prop
  | [] => True
  | e :: es => e.Legible ∧ LegibleAll es

end

/-! ## The text of a tree -/

section

variable {rest : List Char} {ts : List Token}

/-- Delimiters continue no word. -/
theorem apart_cons {c : Char} (h : c ∈ [' ', ',', '(', ')']) (cs : List Char) : Apart (c :: cs) := by
  have hall : [' ', ',', '(', ')'].all (fun d => !isNamePart d && d != '.') := by decide
  rintro d hd
  cases hd
  have hchecks := List.all_eq_true.1 hall c h
  rwa [Bool.and_eq_true, Bool.not_eq_true', bne_iff_ne] at hchecks

theorem lexes_lparen (h : Lexes rest ts) : Lexes ('(' :: rest) (.symbol .lparen :: ts) :=
  .token (@scan_symbol_lone .lparen (by decide) rest) h

theorem lexes_rparen (h : Lexes rest ts) : Lexes (')' :: rest) (.symbol .rparen :: ts) :=
  .token (@scan_symbol_lone .rparen (by decide) rest) h

theorem lexes_comma (h : Lexes rest ts) : Lexes (',' :: rest) (.symbol .comma :: ts) :=
  .token (@scan_symbol_lone .comma (by decide) rest) h

mutual

/-- **The tokens of a printed tree**, in front of what continues no word. -/
theorem lexes_text : ∀ {e : Expr}, e.Legible → ∀ {rest ts}, Apart rest → Lexes rest ts →
    Lexes (e.text.toList ++ rest) (e.tokens ++ ts)
  | number _ v t, he, rest, ts, hrest, h => by
    rw [text, tokens]
    exact .token (scan_number he.1 hrest) h
  | ident _ name, he, rest, ts, hrest, h => by
    rw [text, tokens]
    exact .token (scan_name he hrest) h
  | binary _ op l r, he, rest, ts, hrest, h => by
    obtain ⟨hl, hr⟩ := he
    have hright := lexes_text hr (apart_cons (by decide) _) (lexes_rparen h)
    have hop := Lexes.token (scan_symbol_space op.toSymbol _) hright.space
    have hleft := lexes_text hl (apart_cons (by decide) _) hop.space
    simpa [text, tokens, op.text_toSymbol] using lexes_lparen hleft
  | unary _ op x, he, rest, ts, hrest, h => by
    have hx : x.Legible := he
    have hoperand := lexes_text hx (apart_cons (by decide) _) (lexes_rparen h)
    have hlone : op.toSymbol ∈ Symbol.lone := by cases op <;> decide
    have hsign := Lexes.token (scan_symbol_lone hlone _) hoperand
    simpa [text, tokens, op.text_toSymbol] using lexes_lparen hsign
  | call _ f args, he, rest, ts, hrest, h => by
    have hargs := lexes_textAll he.2 (apart_cons (by decide) _) (lexes_rparen h)
    have hname := Lexes.token (scan_name he.1 (apart_cons (by decide) _)) (lexes_lparen hargs)
    simpa [text, tokens] using hname
  | tuple _ items, he, rest, ts, hrest, h => by
    have hitems := lexes_textAll he.2 (apart_cons (by decide) _) (lexes_rparen h)
    simpa [text, tokens] using lexes_lparen hitems

theorem lexes_textAll : ∀ {es : List Expr}, LegibleAll es → ∀ {rest ts}, Apart rest →
    Lexes rest ts → Lexes ((textAll es).toList ++ rest) (tokensAll es ++ ts)
  | [], _, rest, ts, hrest, h => by
    rw [textAll, tokensAll]
    exact h
  | [e], he, rest, ts, hrest, h => by
    rw [textAll, tokensAll]
    exact lexes_text he.1 hrest h
  | e :: e' :: es, he, rest, ts, hrest, h => by
    have hothers := lexes_textAll he.2 hrest h
    have hfirst := lexes_text he.1 (apart_cons (by decide) _) (lexes_comma hothers.space)
    simpa [textAll, tokensAll] using hfirst

end

end

/-! ## Reading the tokens -/

/-- A printed tree as a part of a list, with the tree that is read back. -/
def part (e : Expr) : Part := (e.tokens, e.unwrapped.bare)

mutual

/-- The number of levels that the parser goes down for a printed tree: one for each list of
elements, and for an operator one for its parentheses and one for its right operand. -/
def levels : Expr → Nat
  | number .. | ident .. => 0
  | binary _ _ l r => max (l.levels + 1) (r.levels + 2)
  | unary _ _ x => x.levels + 2
  | call _ _ args => levelsAll args
  | tuple _ items => levelsAll items

/-- The number of levels for the elements of a list. -/
def levelsAll : List Expr → Nat
  | [] => 0
  | e :: es => max (e.levels + 1) (levelsAll es)

end

mutual

/-- Two levels for each level of the tree are enough. -/
theorem levels_le : ∀ e : Expr, e.levels + 2 ≤ 2 * e.depth
  | number .. | ident .. => Nat.le_refl _
  | binary _ _ l r => by
    have := levels_le l
    have := levels_le r
    rw [levels, depth]
    omega
  | unary _ _ x => by
    have := levels_le x
    rw [levels, depth]
    omega
  | call _ _ args => by
    have := levelsAll_le args
    rw [levels, depth]
    omega
  | tuple _ items => by
    have := levelsAll_le items
    rw [levels, depth]
    omega

theorem levelsAll_le : ∀ es : List Expr, levelsAll es ≤ 2 * depthAll es
  | [] => Nat.le_refl _
  | e :: es => by
    have := levels_le e
    have := levelsAll_le es
    rw [levelsAll, depthAll]
    omega

end

theorem tokensAll_cons (e : Expr) (es : List Expr) :
    tokensAll (e :: es) = e.tokens ++ behindCommas (es.map part) := by
  induction es generalizing e with
  | nil => simp [tokensAll, behindCommas]
  | cons e' es ih =>
    rw [tokensAll, ih e']
    simp [behindCommas, part]

theorem bareAll_unwrappedAll (es : List Expr) :
    bareAll (unwrappedAll es) = (es.map part).map Prod.snd := by
  induction es with
  | nil => rfl
  | cons e es ih => rw [unwrappedAll, bareAll, ih, List.map_cons, List.map_cons, part]

theorem binding?_toSymbol (op : BinaryOp) :
    ∃ b, Parser.binding? op.toSymbol = some b ∧ b.op = op ∧ 5 ≤ b.power ∧ b.power ≤ 50 ∧
      5 < b.right ∧ b.right ≤ 50 := by
  cases op <;> exact ⟨_, rfl, rfl, by decide, by decide, by decide, by decide⟩

section

open Parser

mutual

/-- **A printed tree is read back** with as many levels as it goes down. -/
theorem acceptsPrimary_levels : ∀ {e : Expr}, e.Legible → ∀ {n : Nat}, e.levels ≤ n →
    AcceptsPrimary n e.tokens e.unwrapped.bare
  | number _ v t, he, n, _ => by
    rw [tokens, unwrapped, bare]
    exact acceptsPrimary_number he.2
  | ident _ name, he, n, _ => by
    rw [tokens, unwrapped, bare]
    exact acceptsPrimary_ident name
  | binary _ op l r, he, n, hn => by
    rw [levels] at hn
    -- one level for the parentheses and one for the right operand
    obtain ⟨k, rfl⟩ : ∃ k, n = k + 2 := ⟨n - 2, by omega⟩
    have hl := (acceptsPrimary_levels he.1 (n := k + 1) (by omega)).accepts
    have hr := (acceptsPrimary_levels he.2 (n := k) (by omega)).accepts
    obtain ⟨b, hb, hop, hlow, hhigh, hlow', hhigh'⟩ := binding?_toSymbol op
    have hinner : Accepts (k + 1) .comparison _ _ :=
      Accepts.binary hb hl hr hhigh hlow (by decide) hhigh' (by decide) hlow'
    rw [hop] at hinner
    rw [tokens, unwrapped, bare]
    exact hinner.group
  | unary _ op x, he, n, hn => by
    rw [levels] at hn
    have hx : x.Legible := he
    obtain ⟨k, rfl⟩ : ∃ k, n = k + 2 := ⟨n - 2, by omega⟩
    have hoperand : Accepts k .signed x.tokens x.unwrapped.bare :=
      (acceptsPrimary_levels hx (n := k) (by omega)).accepts.mono (by decide) (by decide)
    have hinner : Accepts (k + 1) .comparison _ _ :=
      (Accepts.signed op.text_toSymbol hoperand).mono (by decide) (by decide)
    rw [tokens, unwrapped, bare]
    exact hinner.group
  | call _ f [], he, n, hn => by
    rw [tokens, unwrapped, bare]
    exact acceptsPrimary_callEmpty f
  | call _ f (e :: es), he, n, hn => by
    rw [levels, levelsAll] at hn
    obtain ⟨k, rfl⟩ : ∃ k, n = k + 1 := ⟨n - 1, by omega⟩
    have hfirst : Accepts k .comparison (part e).1 (part e).2 :=
      (acceptsPrimary_levels he.2.1 (n := k) (by omega)).accepts.mono (by decide) (by decide)
    have hrest := accepts_parts he.2.2 (n := k) (by omega)
    rw [tokens, unwrapped, bare, tokensAll_cons, bareAll_unwrappedAll]
    exact Accepts.call f hfirst hrest
  | tuple _ [], he, n, hn => absurd rfl he.1
  | tuple _ [e], he, n, hn => by
    rw [levels, levelsAll, levelsAll] at hn
    obtain ⟨k, rfl⟩ : ∃ k, n = k + 1 := ⟨n - 1, by omega⟩
    have hinner : Accepts k .comparison e.tokens e.unwrapped.bare :=
      (acceptsPrimary_levels he.2.1 (n := k) (by omega)).accepts.mono (by decide) (by decide)
    rw [tokens, unwrapped, tokensAll]
    exact hinner.group
  | tuple _ (e :: e' :: es), he, n, hn => by
    rw [levels, levelsAll] at hn
    obtain ⟨k, rfl⟩ : ∃ k, n = k + 1 := ⟨n - 1, by omega⟩
    have hfirst : Accepts k .comparison (part e).1 (part e).2 :=
      (acceptsPrimary_levels he.2.1 (n := k) (by omega)).accepts.mono (by decide) (by decide)
    have hrest := accepts_parts he.2.2 (n := k) (by omega)
    have htuple := Accepts.tuple hfirst hrest (.inr ⟨rfl, List.cons_ne_nil _ _⟩)
    rw [List.append_nil] at htuple
    rw [tokens, unwrapped, tokensAll_cons]
    change AcceptsPrimary (k + 1) _ (Expr.tuple _ (unwrappedAll (e :: e' :: es))).bare
    rw [bare, bareAll_unwrappedAll]
    exact htuple

theorem accepts_parts : ∀ {es : List Expr}, LegibleAll es → ∀ {n : Nat}, levelsAll es ≤ n + 1 →
    ∀ x ∈ es.map part, Accepts n .comparison x.1 x.2
  | [], _, n, _ => List.forall_mem_nil _
  | e :: es, he, n, hn => by
    rw [levelsAll] at hn
    have hfirst : Accepts n .comparison (part e).1 (part e).2 :=
      (acceptsPrimary_levels he.1 (n := n) (by omega)).accepts.mono (by decide) (by decide)
    exact List.forall_mem_cons.2 ⟨hfirst, accepts_parts he.2 (by omega)⟩

end

end

/-! ## What the parser returns can be written -/

theorem legibleAll_iff {es : List Expr} : LegibleAll es ↔ ∀ e ∈ es, e.Legible := by
  induction es with
  | nil => simp [LegibleAll]
  | cons e es ih => simp [LegibleAll, ih]

theorem legible_of_derives {p : Phrase} {ts : List Token} {t : Expr} (h : Derives p ts t)
    (hts : ∀ x ∈ ts, x.Written) : t.Legible := by
  have hparts : ∀ {rest : List Part}, (∀ t ∈ behindCommas rest, t.Written) → ∀ x ∈ rest,
      ∀ t ∈ x.1, t.Written := by
    intro rest hrest x hx t ht
    exact hrest t (List.mem_flatMap.2 ⟨x, hx, List.mem_cons_of_mem _ ht⟩)
  have hall : ∀ {first : Part} {rest : List Part}, first.2.Legible → (∀ x ∈ rest, x.2.Legible) →
      LegibleAll (first.2 :: rest.map Prod.snd) := by
    intro first rest hfirst hrest
    refine legibleAll_iff.2 (List.forall_mem_cons.2 ⟨hfirst, fun e he => ?_⟩)
    obtain ⟨x, hx, rfl⟩ := List.mem_map.1 he
    exact hrest x hx
  induction h with
  | number hv => exact ⟨hts _ List.mem_cons_self, hv⟩
  | ident name => exact hts _ List.mem_cons_self
  | group he ih => exact ih fun x hx => hts x (by simp [hx])
  | tuple hfirst hrest hclosing ih ihs =>
    refine ⟨List.cons_ne_nil _ _, hall (ih fun x hx => hts x (by simp [hx])) fun x hx => ?_⟩
    exact ihs x hx (hparts (fun t ht => hts t (by simp [ht])) x hx)
  | callEmpty f => exact ⟨hts (.ident f) List.mem_cons_self, trivial⟩
  | call f hfirst hrest ih ihs =>
    refine ⟨hts (.ident f) (by simp), hall (ih fun x hx => hts x (by simp [hx])) fun x hx => ?_⟩
    exact ihs x hx (hparts (fun t ht => hts t (by simp [ht])) x hx)
  | power hl hr ihl ihr =>
    exact ⟨ihl fun x hx => hts x (by simp [hx]), ihr fun x hx => hts x (by simp [hx])⟩
  | signed hs hx ih => exact ih fun x hx => hts x (by simp [hx])
  | chain hpq hop hs hl hr ihl ihr =>
    exact ⟨ihl fun x hx => hts x (by simp [hx]), ihr fun x hx => hts x (by simp [hx])⟩
  | lift hpq he ih => exact ih hts

mutual

/-- Where a tree was read from does not matter. -/
theorem legible_of_bare : ∀ {e : Expr}, e.bare.Legible → e.Legible
  | number .., h => h
  | ident .., h => h
  | binary .., h => ⟨legible_of_bare h.1, legible_of_bare h.2⟩
  | unary _ _ x, h => @legible_of_bare x h
  | call .., h => ⟨h.1, legibleAll_of_bareAll h.2⟩
  | tuple _ [], h => absurd rfl h.1
  | tuple _ (_ :: _), h => ⟨List.cons_ne_nil _ _, legibleAll_of_bareAll h.2⟩

theorem legibleAll_of_bareAll : ∀ {es : List Expr}, LegibleAll (bareAll es) → LegibleAll es
  | [], _ => trivial
  | _ :: _, h => ⟨legible_of_bare h.1, legibleAll_of_bareAll h.2⟩

end

theorem legible_of_parse {limit : Nat} {source : String} {e : Expr}
    (h : parse limit source = .ok e) : e.Legible := by
  rw [parse] at h
  split at h
  · cases h
  · rename_i ls hls
    refine legible_of_bare (legible_of_derives (derives_of_ofLexemes h) fun t ht => ?_)
    obtain ⟨l, hl, rfl⟩ := List.mem_map.1 ht
    exact forall_lexemes (fun _ _ _ => written_of_scan) hls l hl

/-! ## Tuples of one element -/

mutual

theorem depth_bare : ∀ e : Expr, e.bare.depth = e.depth
  | number .. => rfl
  | ident .. => rfl
  | binary _ _ l r => by rw [bare, depth, depth, depth_bare l, depth_bare r]
  | unary _ _ x => by rw [bare, depth, depth, depth_bare x]
  | call _ _ args => by rw [bare, depth, depth, depthAll_bareAll args]
  | tuple _ items => by rw [bare, depth, depth, depthAll_bareAll items]

theorem depthAll_bareAll : ∀ es : List Expr, depthAll (bareAll es) = depthAll es
  | [] => rfl
  | e :: es => by rw [bareAll, depthAll, depthAll, depth_bare e, depthAll_bareAll es]

end

mutual

theorem depth_unwrapped_le : ∀ e : Expr, e.unwrapped.depth ≤ e.depth
  | number .. => Nat.le_refl _
  | ident .. => Nat.le_refl _
  | binary _ _ l r => by
    have := depth_unwrapped_le l
    have := depth_unwrapped_le r
    rw [unwrapped, depth, depth]
    omega
  | unary _ _ x => by
    have := depth_unwrapped_le x
    rw [unwrapped, depth, depth]
    omega
  | call _ _ args => by
    have := depthAll_unwrappedAll_le args
    rw [unwrapped, depth, depth]
    omega
  | tuple _ items => by
    have hle := depthAll_unwrappedAll_le items
    rw [unwrapped, depth]
    split
    · rename_i x hx
      rw [hx, depthAll, depthAll] at hle
      omega
    · rw [depth]
      omega

theorem depthAll_unwrappedAll_le : ∀ es : List Expr, depthAll (unwrappedAll es) ≤ depthAll es
  | [] => Nat.le_refl _
  | e :: es => by
    have := depth_unwrapped_le e
    have := depthAll_unwrappedAll_le es
    rw [unwrappedAll, depthAll, depthAll]
    omega

end

mutual

/-- **Only a tuple of one element is changed.** -/
theorem bare_unwrapped_eq_iff : ∀ e : Expr,
    e.unwrapped.bare = e.bare ↔ ∀ s x, tuple s [x] ∉ e.preorder
  | number .. => by simp [unwrapped, preorder]
  | ident .. => by simp [unwrapped, preorder]
  | binary _ op l r => by
    have hl := bare_unwrapped_eq_iff l
    have hr := bare_unwrapped_eq_iff r
    simp only [unwrapped, bare, preorder, binary.injEq, true_and, hl, hr, List.mem_cons,
      List.mem_append, reduceCtorEq, false_or, not_or, forall_and]
  | unary _ op x => by
    have hx := bare_unwrapped_eq_iff x
    simp only [unwrapped, bare, preorder, unary.injEq, true_and, hx, List.mem_cons, reduceCtorEq,
      false_or]
  | call _ f args => by
    have hargs := bareAll_unwrappedAll_eq_iff args
    simp only [unwrapped, bare, preorder, call.injEq, true_and, hargs, List.mem_cons, reduceCtorEq,
      false_or]
  | tuple _ [] => by simp [unwrapped, unwrappedAll, preorder, preorderAll]
  | tuple s [x] => by
    -- the element alone is less deep than the tuple
    have hle := depth_unwrapped_le x
    have hne : (tuple s [x]).unwrapped.bare ≠ (tuple s [x]).bare := by
      intro h
      have hdepth := congrArg depth h
      rw [unwrapped, depth_bare, depth_bare] at hdepth
      simp only [unwrappedAll, depth, depthAll] at hdepth
      omega
    refine iff_of_false hne fun h => h s x ?_
    rw [preorder]
    exact List.mem_cons_self
  | tuple s (e :: e' :: es) => by
    have hitems := bareAll_unwrappedAll_eq_iff (e :: e' :: es)
    have hshape : (tuple s (e :: e' :: es)).unwrapped = tuple s (unwrappedAll (e :: e' :: es)) := rfl
    rw [hshape]
    simp only [bare, preorder, tuple.injEq, true_and, hitems, List.mem_cons, List.cons.injEq,
      reduceCtorEq, and_false, false_or]

theorem bareAll_unwrappedAll_eq_iff : ∀ es : List Expr,
    bareAll (unwrappedAll es) = bareAll es ↔ ∀ s x, tuple s [x] ∉ preorderAll es
  | [] => by simp [unwrappedAll, preorderAll]
  | e :: es => by
    have he := bare_unwrapped_eq_iff e
    have hes := bareAll_unwrappedAll_eq_iff es
    simp only [unwrappedAll, bareAll, preorderAll, List.cons.injEq, he, hes, List.mem_append, not_or,
      forall_and]

end

/-- **A tree that can be written is read back** from its text, with more levels than it goes
down. -/
theorem parse_text_of_legible {e : Expr} (he : e.Legible) {limit : Nat} (h : e.levels < limit) :
    ∃ e', parse limit e.text = .ok e' ∧ e'.bare = e.unwrapped.bare := by
  obtain ⟨ls, hls, hts⟩ : ∃ ls, lexemesFrom 0 e.text.toList = .ok ls ∧
      ls.map Lexeme.token = e.tokens := by
    have hlexes : Lexes (e.text.toList ++ []) (e.tokens ++ []) :=
      lexes_text he (by rintro c hc; cases hc) .nil
    rw [List.append_nil, List.append_nil] at hlexes
    exact hlexes 0
  obtain ⟨e', hread, hbare⟩ : ∃ e', ofLexemes limit ls = .ok e' ∧ e'.bare = e.unwrapped.bare := by
    refine ofLexemes_of_accepts h fun m hm => ?_
    rw [hts]
    exact (acceptsPrimary_levels he hm).accepts.mono (by decide) (by decide)
  refine ⟨e', ?_, hbare⟩
  rw [parse, lexemes, hls]
  exact hread

/-- **Printing and parsing.** What the parser returned is read back from its text, with a
limit of two levels for each level of the tree; only tuples of one element are replaced by
their element, so the tree is the same exactly if there are none. -/
theorem parse_text {limit : Nat} {source : String} {e : Expr} (h : parse limit source = .ok e)
    {most : Nat} (hmost : 2 * e.depth ≤ most) :
    ∃ e', parse most e.text = .ok e' ∧ e'.bare = e.unwrapped.bare ∧
      (e'.bare = e.bare ↔ ∀ s x, tuple s [x] ∉ e.preorder) := by
  have hlevels := e.levels_le
  obtain ⟨e', hread, hbare⟩ := parse_text_of_legible (legible_of_parse h) (show e.levels < most by omega)
  refine ⟨e', hread, hbare, ?_⟩
  rw [hbare]
  exact bare_unwrapped_eq_iff e

/-- A sign, a numeral that ends in its point and a tuple of one element. -/
theorem parse_text_of_tuple :
    ∃ e, parse 8 "-3. * f((x,), .5) == 2" = .ok e ∧ 2 * e.depth ≤ 12 ∧
      ∃ e', parse 12 e.text = .ok e' ∧ e'.bare = e.unwrapped.bare := by
  have hok : (parse 8 "-3. * f((x,), .5) == 2").isOk := by decide +kernel
  have hdepth : ∀ e ∈ (parse 8 "-3. * f((x,), .5) == 2").toOption, 2 * e.depth ≤ 12 := by
    decide +kernel
  cases h : parse 8 "-3. * f((x,), .5) == 2" with
  | error err =>
    rw [h] at hok
    cases hok
  | ok e =>
    have hmost := hdepth e (by rw [h]; rfl)
    obtain ⟨e', hread, hbare, -⟩ := parse_text h hmost
    exact ⟨e, rfl, hmost, e', hread, hbare⟩

end Expr

end NodeFormula
