import NodeFormula.Proofs.Decimal.Defined
import NodeFormula.Proofs.Expr.Exact
import NodeFormula.Proofs.Formula.Stages
/-!
# NodeFormula — the tokens of canonical text

Each word of a canonical text is one token, and two equal signs may be one (`scan_mark`). So
the numerals, the names in front of a parenthesis and the other names among the tokens are the
numbers, the functions and the variables of the text (`exists_spells`). Where the tokens are an
expression, its variables are the names without a parenthesis behind them
(`Phrase.mentions_of_derives`).
-/

namespace NodeFormula

/-! ## Views of tokens -/

/-- The numerals among tokens. -/
def numerals : List Token → List String
  | .number text :: ts => text :: numerals ts
  | _ :: ts => numerals ts
  | [] => []

/-- The names among tokens that have a parenthesis behind them, or have none. -/
def names (called : Bool) : List Token → List String
  | .ident name :: ts =>
    if (ts.head? == some (.symbol .lparen)) = called then name :: names called ts
    else names called ts
  | _ :: ts => names called ts
  | [] => []

variable {called : Bool} {ts us : List Token}

@[simp] theorem names_nil : names called [] = [] := rfl

@[simp] theorem names_symbol (s : Symbol) : names called (.symbol s :: ts) = names called ts := rfl

@[simp] theorem names_number (text : String) : names called (.number text :: ts) = names called ts :=
  rfl

/-- Names do not depend on what follows, unless it is a parenthesis. -/
theorem names_append (h : us.head? ≠ some (.symbol .lparen)) :
    names called (ts ++ us) = names called ts ++ names called us := by
  induction ts with
  | nil => rfl
  | cons t ts ih =>
    cases t with
    | symbol s => exact ih
    | number text => exact ih
    | ident name =>
      have hhead : ((ts ++ us).head? == some (.symbol .lparen)) =
          (ts.head? == some (.symbol .lparen)) := by
        cases ts with
        | nil => rw [List.nil_append, beq_eq_false_iff_ne.2 h]; rfl
        | cons t ts => rfl
      rw [List.cons_append, names, names, hhead, ih]
      split_ifs <;> rfl

/-! ## Variables of an expression -/

namespace Expr

/-- Where variables occur in an expression, from left to right. -/
def mentions (e : Expr) : List String := e.preorder.filterMap ident?

/-- Where variables occur in a list of expressions. -/
def mentionsAll (es : List Expr) : List String := (preorderAll es).filterMap ident?

variable (span : Span) (l r e : Expr) (es : List Expr)

@[simp] theorem mentions_binary (op : BinaryOp) :
    (binary span op l r).mentions = l.mentions ++ r.mentions := by
  rw [mentions, preorder]
  exact List.filterMap_append

@[simp] theorem mentions_unary (op : UnaryOp) : (unary span op e).mentions = e.mentions := by
  rw [mentions, preorder]
  rfl

@[simp] theorem mentions_call (f : String) : (call span f es).mentions = mentionsAll es := by
  rw [mentions, preorder]
  rfl

@[simp] theorem mentions_tuple : (tuple span es).mentions = mentionsAll es := by
  rw [mentions, preorder]
  rfl

@[simp] theorem mentionsAll_cons : mentionsAll (e :: es) = e.mentions ++ mentionsAll es := by
  rw [mentionsAll, preorderAll]
  exact List.filterMap_append

mutual

theorem mentions_bare : ∀ e : Expr, e.bare.mentions = e.mentions
  | number .. => rfl
  | ident .. => rfl
  | binary _ _ l r => by simp only [bare, mentions_binary, mentions_bare l, mentions_bare r]
  | unary _ _ x => by simp only [bare, mentions_unary, mentions_bare x]
  | call _ _ args => by simp only [bare, mentions_call, mentionsAll_bareAll args]
  | tuple _ items => by simp only [bare, mentions_tuple, mentionsAll_bareAll items]

theorem mentionsAll_bareAll : ∀ es : List Expr, mentionsAll (bareAll es) = mentionsAll es
  | [] => rfl
  | e :: es => by simp only [bareAll, mentionsAll_cons, mentions_bare e, mentionsAll_bareAll es]

end

end Expr

namespace Phrase

/-- The names of parts behind commas. -/
theorem names_behindCommas {parts : List Part} (h : ∀ x ∈ parts, x.2.mentions = names false x.1)
    (hts : ts.head? ≠ some (.symbol .lparen)) :
    (behindCommas parts ++ ts).head? ≠ some (.symbol .lparen) ∧
      names false (behindCommas parts ++ ts) =
        Expr.mentionsAll (parts.map Prod.snd) ++ names false ts := by
  induction parts with
  | nil => exact ⟨hts, rfl⟩
  | cons x parts ih =>
    rw [List.forall_mem_cons] at h
    obtain ⟨hnext, hparts⟩ := ih h.2
    have hcons : behindCommas (x :: parts) ++ ts =
        .symbol .comma :: (x.1 ++ (behindCommas parts ++ ts)) := by
      simp [behindCommas]
    rw [hcons]
    refine ⟨by simp, ?_⟩
    rw [names_symbol, names_append hnext, hparts, List.map_cons, Expr.mentionsAll_cons, h.1,
      List.append_assoc]

/-- **The variables of an expression are the names without a parenthesis behind them**, in the
order in which they stand. -/
theorem mentions_of_derives {p : Phrase} {e : Expr} (h : Derives p ts e) :
    e.mentions = names false ts := by
  have hclose : ([.symbol .rparen] : List Token).head? ≠ some (.symbol .lparen) := by decide
  induction h with
  | number hv => rfl
  | ident name => rfl
  | group he ih =>
    rw [List.cons_append, names_symbol, names_append hclose, ih]
    exact (List.append_nil _).symm
  | @tuple first rest closing hfirst hrest hclosing ih ihs =>
    obtain ⟨hend, hnone⟩ :
        (closing ++ [Token.symbol .rparen]).head? ≠ some (.symbol .lparen) ∧
          names false (closing ++ [.symbol .rparen]) = [] := by
      rcases hclosing with rfl | ⟨rfl, -⟩
      · exact ⟨by decide, rfl⟩
      · exact ⟨hclose, rfl⟩
    obtain ⟨hnext, hnames⟩ := names_behindCommas ihs hend
    rw [List.cons_append, List.cons_append, List.cons_append, names_symbol, List.append_assoc,
      List.append_assoc, names_append hnext, hnames, hnone, List.append_nil, ← ih, Expr.mentions_tuple,
      Expr.mentionsAll_cons]
  | callEmpty f => rfl
  | @call f first rest hfirst hrest ih ihs =>
    obtain ⟨hnext, hnames⟩ := names_behindCommas ihs hclose
    have hcallee : ∀ us, names false (.ident f :: .symbol .lparen :: us) = names false us := by
      intro us
      rw [names, if_neg (by simp), names_symbol]
    rw [List.cons_append, List.cons_append, List.cons_append, List.cons_append, hcallee,
      List.append_assoc, names_append hnext, hnames, ← ih, Expr.mentions_call, Expr.mentionsAll_cons]
    exact (List.append_nil _).symm ▸ rfl
  | power hl hr ihl ihr =>
    rw [names_append (fun heq => by cases heq), names_symbol, ← ihl, ← ihr, Expr.mentions_binary]
  | signed hs hx ih => rw [names_symbol, ← ih, Expr.mentions_unary]
  | @chain p q s op us vs l r hpq hop hs hl hr ihl ihr =>
    have hsymbol : (Token.symbol s :: vs).head? ≠ some (.symbol .lparen) := by
      intro heq
      cases heq
      cases op <;> exact absurd hs (by decide)
    rw [names_append hsymbol, names_symbol, ← ihl, ← ihr, Expr.mentions_binary]
  | lift hpq he ih => exact ih

end Phrase

/-! ## Numerals -/

/-- What is read as a number opens with a numeral, and at most a power of ten follows. -/
theorem scanNumber_of_unsigned? {negative : Bool} {cs : List Char} {n : Numeral}
    (h : Numeral.unsigned? negative cs = some n) :
    ∃ text rest, scanNumber cs = some (text, rest) ∧ text ++ rest = cs ∧
      ∀ c ∈ rest.head?, c == 'e' || c == 'E' := by
  have hsplit : cs.takeWhile Char.isDigit ++ cs.dropWhile Char.isDigit = cs :=
    List.takeWhile_append_dropWhile
  rw [Numeral.unsigned?] at h
  split at h
  rename_i places rest hpair
  dsimp only at h
  have hempty : ((cs.takeWhile Char.isDigit).isEmpty && places.isEmpty) = false := by
    refine Bool.eq_false_iff.2 fun hempty => ?_
    rw [if_pos hempty] at h
    cases h
  have hrest : ∀ c ∈ rest.head?, c == 'e' || c == 'E' := by
    intro c hc
    rw [if_neg (Bool.eq_false_iff.1 hempty)] at h
    cases rest with
    | nil => cases hc
    | cons d r =>
      cases hc
      dsimp only at h
      split at h
      · assumption
      · cases h
  split at hpair
  · rename_i r hr
    cases hpair
    refine ⟨cs.takeWhile Char.isDigit ++ '.' :: r.takeWhile Char.isDigit, r.dropWhile Char.isDigit,
      ?_, ?_, hrest⟩
    · rw [scanNumber, hr]
      exact if_neg (Bool.eq_false_iff.1 hempty)
    · rw [List.append_assoc, List.cons_append, List.takeWhile_append_dropWhile, ← hr]
      exact hsplit
  · rename_i r hother
    cases hpair
    rw [List.isEmpty_nil, Bool.and_true] at hempty
    refine ⟨cs.takeWhile Char.isDigit, cs.dropWhile Char.isDigit, ?_, hsplit, hrest⟩
    unfold scanNumber
    split
    · rename_i r hr
      exact absurd hr (hother r)
    · exact if_neg (Bool.eq_false_iff.1 hempty)

/-- **Digits and points that are read as a number are a numeral.** -/
theorem isNumeral_of_readFloat? {word : List Char} (hnumeric : isNumeric word)
    (h : (readFloat? (String.ofList word)).isSome) : IsNumeral word := by
  rw [isNumeric, Bool.and_eq_true, List.all_eq_true] at hnumeric
  have hpart : ∀ c ∈ word, c.isDigit ∨ c = '.' := by
    intro c hc
    have hc := hnumeric.2 c hc
    rwa [isNumeralPart, Bool.or_eq_true, beq_iff_eq] at hc
  obtain ⟨a, ha⟩ := Option.isSome_iff_exists.1 h
  obtain ⟨n, hn, -⟩ := Option.map_eq_some_iff.1 ha
  rw [String.toList_ofList, ofChars?_of_digits hpart] at hn
  obtain ⟨text, rest, hscan, happend, hrest⟩ := scanNumber_of_unsigned? hn
  -- a power of ten would begin with a letter
  have hnil : rest = [] := by
    cases rest with
    | nil => rfl
    | cons c r =>
      have he := hrest c rfl
      rw [Bool.or_eq_true, beq_iff_eq, beq_iff_eq] at he
      have hc : c ∈ word := happend ▸ List.mem_append_right text List.mem_cons_self
      rcases hpart c hc with hc | hc <;> rcases he with rfl | rfl <;> exact absurd hc (by decide)
  rw [hnil, List.append_nil] at happend
  exact happend ▸ isNumeral_of_scanNumber hscan

/-! ## Tokens of pieces -/

/-- **A mark is a token of its own or one with the same mark behind it.** -/
theorem scan_mark {c : Char} (hc : c ∈ marks) (rest : List Char) :
    ∃ s rest', scan (c :: rest) = some (.symbol s, rest') ∧
      (s = .lparen ↔ c = '(') ∧ (s = .rparen ↔ c = ')') ∧
      (rest' = rest ∨ rest = c :: rest' ∧ c ≠ '(' ∧ c ≠ ')') := by
  have hsingle : marks.all fun c => Symbol.all.any fun s => s.text.toList = [c] := by decide
  have hopening : ∀ s ∈ Symbol.all, s = .lparen ↔ s.text.toList = ['('] := by decide
  have hclosing : ∀ s ∈ Symbol.all, s = .rparen ↔ s.text.toList = [')'] := by decide
  have hlong : ∀ s ∈ Symbol.all, marks.all fun c => s.text.toList.head? = some c →
      s.text.toList = [c] ∨ s.text.toList = [c, c] ∧ c ≠ '(' ∧ c ≠ ')' := by decide
  have hlong : ∀ s : Symbol, s.text.toList.head? = some c →
      s.text.toList = [c] ∨ s.text.toList = [c, c] ∧ c ≠ '(' ∧ c ≠ ')' := by
    intro s
    exact of_decide_eq_true (List.all_eq_true.1 (hlong s s.mem_all) c hc)
  by_cases hdouble : ∃ r, rest = c :: r ∧ ∃ s ∈ Symbol.all, s.text.toList = [c, c]
  · obtain ⟨r, rfl, s, hs, htext⟩ := hdouble
    have hne : c ≠ '(' ∧ c ≠ ')' := by
      refine ((hlong s (by rw [htext]; rfl)).resolve_left fun hone => ?_).2
      rw [htext] at hone
      cases hone
    refine ⟨s, r, ?_, ?_, ?_, Or.inr ⟨rfl, hne⟩⟩
    · have hscan : scan (s.text.toList ++ r) = some (.symbol s, r) :=
        scan_symbol fun d _ s' hs' => ?_
      · rwa [htext] at hscan
      · rw [htext] at hs'
        rcases hlong s' (by rw [hs']; rfl) with hone | ⟨htwo, -⟩
        · rw [hs'] at hone
          cases hone
        · rw [hs'] at htwo
          cases htwo
    · rw [hopening s hs, htext]
      simp [hne]
    · rw [hclosing s hs, htext]
      simp [hne]
  · obtain ⟨s, hs, htext⟩ : ∃ s ∈ Symbol.all, s.text.toList = [c] := by
      simpa using List.all_eq_true.1 hsingle c hc
    refine ⟨s, rest, ?_, by simp [hopening s hs, htext], by simp [hclosing s hs, htext], Or.inl rfl⟩
    have hscan : scan (s.text.toList ++ rest) = some (.symbol s, rest) :=
      scan_symbol fun d hd s' hs' => ?_
    · rwa [htext] at hscan
    · rw [htext] at hs'
      rcases hlong s' (by rw [hs']; rfl) with hone | ⟨htwo, -⟩
      · rw [hs'] at hone
        cases hone
      · have hdc : d = c := by
          rw [hs'] at htwo
          simpa using htwo
        refine hdouble ⟨rest.tail, ?_, s', s'.mem_all, htwo⟩
        rw [← hdc]
        exact (List.cons_head?_tail hd).symm

variable {algebraic : Bool} {p : Piece} {ps : List Piece}

/-- The texts of the pieces in a role. -/
def wordsOf (role : Role) (ps : List Piece) : List String :=
  (ps.filter (·.role == role)).map fun p => String.ofList p.text

theorem isOpening_mark (c : Char) : (Piece.mk .punctuation [c]).isOpening ↔ c = '(' := by
  simp [Piece.isOpening]

/-- **The tokens of pieces**: a word is one, and so is a mark or a mark with the same one behind
it. -/
inductive Tokenized : List Piece → List Token → Prop
  | nil : Tokenized [] []
  | constant {ps : List Piece} {ts : List Token} (text : List Char) : Tokenized ps ts →
      Tokenized (⟨.constant, text⟩ :: ps) (.number (String.ofList text) :: ts)
  /-- A function is in front of a parenthesis and a variable is not. -/
  | name {ps : List Piece} {ts : List Token} {role : Role} (text : List Char) :
      Tokenized ps ts →
      role = .function ∧ (∃ q ∈ ps.head?, q.isOpening) ∨
        role = .free ∧ ¬ (∃ q ∈ ps.head?, q.isOpening) →
      Tokenized (⟨role, text⟩ :: ps) (.ident (String.ofList text) :: ts)
  | mark {ps : List Piece} {ts : List Token} {c : Char} {s : Symbol} : Tokenized ps ts →
      (s = .lparen ↔ c = '(') → (s = .rparen ↔ c = ')') →
      Tokenized (⟨.punctuation, [c]⟩ :: ps) (.symbol s :: ts)
  /-- No parenthesis is the same as the next. -/
  | twice {ps : List Piece} {ts : List Token} {c : Char} {s : Symbol} : Tokenized ps ts →
      c ≠ '(' → s ≠ .lparen → s ≠ .rparen →
      Tokenized (⟨.punctuation, [c]⟩ :: ⟨.punctuation, [c]⟩ :: ps) (.symbol s :: ts)

namespace Tokenized

theorem opening_iff (h : Tokenized ps ts) :
    ts.head? = some (.symbol .lparen) ↔ ∃ q ∈ ps.head?, q.isOpening := by
  cases h with
  | nil => simp
  | constant => simp [Piece.isOpening]
  | name _ _ hrole => rcases hrole with ⟨rfl, -⟩ | ⟨rfl, -⟩ <;> simp [Piece.isOpening]
  | mark _ hopen => simp [isOpening_mark, hopen]
  | twice _ hc hopen => simp [isOpening_mark, hc, hopen]

theorem numerals_eq (h : Tokenized ps ts) : numerals ts = wordsOf .constant ps := by
  induction h with
  | nil => rfl
  | constant text _ ih => exact congrArg _ ih
  | name text _ hrole ih => rcases hrole with ⟨rfl, -⟩ | ⟨rfl, -⟩ <;> exact ih
  | mark _ _ _ ih => exact ih
  | twice _ _ _ _ ih => exact ih

/-- The names in front of a parenthesis are the functions, and the others the variables. -/
theorem names_eq (h : Tokenized ps ts) (called : Bool) :
    names called ts = wordsOf (if called then .function else .free) ps := by
  induction h with
  | nil => rfl
  | constant text _ ih => cases called <;> exact ih
  | name text hts hrole ih =>
    rw [← hts.opening_iff] at hrole
    rcases hrole with ⟨rfl, hopen⟩ | ⟨rfl, hopen⟩
    all_goals
      rw [names, ih]
      cases called <;> simp [hopen, wordsOf]
  | mark _ _ _ ih => cases called <;> exact ih
  | twice _ _ _ _ ih => cases called <;> exact ih

end Tokenized

/-- **What the tokens of pieces say.** Their numerals and names are the words of the pieces. -/
structure Spells (ps : List Piece) (ts : List Token) : Prop where
  lexes : Lexes (ps.map Piece.text).flatten ts
  constants : numerals ts = wordsOf .constant ps
  functions : names true ts = wordsOf .function ps
  vars : names false ts = wordsOf .free ps

/-- A word ends where a mark stands. -/
theorem apart_texts (h : Fitted algebraic ps) (hnext : ∀ q ∈ ps.head?, q.isWord = false) :
    Apart (ps.map Piece.text).flatten := by
  intro c hc
  cases ps with
  | nil => cases hc
  | cons q ps =>
    have hsegment := h.1.settled.isSegment
    rw [hnext q rfl] at hsegment
    obtain ⟨d, hd, htext⟩ := hsegment.1.exists_of_not_isRun hsegment.2
    rw [List.map_cons, List.flatten_cons, htext] at hc
    cases hc
    rwa [isWordPart, Bool.or_eq_false_iff, beq_eq_false_iff_ne] at hd

/-- A piece that opens with a mark is the mark. -/
theorem eq_mark {c : Char} (h : p.Settled algebraic) (hc : c ∈ marks)
    (hhead : p.text.head? = some c) : p = ⟨.punctuation, [c]⟩ := by
  have hrun : isRun isWordPart p.text = false := by
    rw [isRun, hhead]
    exact not_isWordPart_of_mem_marks hc
  obtain ⟨d, -, htext⟩ := h.isSegment.1.exists_of_not_isRun hrun
  have hrole : p.role = .punctuation := by
    simpa [Piece.isWord] using h.isSegment.2.symm.trans hrun
  obtain ⟨role, text⟩ := p
  obtain rfl : text = [d] := htext
  obtain rfl : role = .punctuation := hrole
  cases hhead
  rfl

/-- **Pieces that fit have tokens**, where no sign is understood. -/
theorem exists_tokenized (h : Fitted algebraic ps) (hstar : Unstarred algebraic ps) :
    ∃ ts, Lexes (ps.map Piece.text).flatten ts ∧ Tokenized ps ts := by
  -- two equal marks may be one token, so the induction is on the number of pieces
  induction hn : ps.length using Nat.strongRecOn generalizing ps with
  | ind n ih =>
    cases ps with
    | nil => exact ⟨[], .nil, .nil⟩
    | cons p ps =>
      obtain ⟨hp, hps⟩ := h
      rw [Unstarred, List.isChain_cons] at hstar
      have hlength : ps.length < n := by
        rw [← hn, List.length_cons]
        exact Nat.lt_succ_self _
      obtain ⟨ts, hlexes, hts⟩ := ih ps.length hlength hps hstar.2 rfl
      have hapart : p.isWord → Apart (ps.map Piece.text).flatten := fun hword =>
        apart_texts hps (hp.apart hword)
      -- in front of a parenthesis a word is a function
      have hcalled : p.isWord → (∃ q ∈ ps.head?, q.isOpening) → p.role = .function := by
        rintro hword ⟨q, hq, hopen⟩
        refine (hp.grouped hword q hq hopen).resolve_right fun himplied => ?_
        rw [hstar.1 q hq] at himplied
        cases himplied
      obtain ⟨role, text⟩ := p
      have hscan_name : IsName text → role ≠ .punctuation →
          Lexes ((Piece.mk role text :: ps).map Piece.text).flatten
            (.ident (String.ofList text) :: ts) := by
        intro hname hrole
        refine .token ?_ hlexes
        have hscan : scan ((String.ofList text).toList ++ _) = some (.ident (String.ofList text), _) :=
          scan_name (by rwa [String.toList_ofList]) (hapart (by simpa [Piece.isWord] using hrole))
        rwa [String.toList_ofList] at hscan
      cases role with
      | constant =>
        refine ⟨_, .token ?_ hlexes, hts.constant text⟩
        have hnumeral := isNumeral_of_readFloat? hp.settled.1 hp.settled.2
        have hscan : scan ((String.ofList text).toList ++ _) = some (.number (String.ofList text), _) :=
          scan_number (by rwa [String.toList_ofList]) (hapart rfl)
        rwa [String.toList_ofList] at hscan
      | free =>
        refine ⟨_, hscan_name (Piece.isName_of_free hp.settled) (by decide),
          hts.name text (Or.inr ⟨rfl, fun hopen => ?_⟩)⟩
        cases hcalled rfl hopen
      | function =>
        exact ⟨_, hscan_name (Piece.isName_of_function hp.settled) (by decide),
          hts.name text (Or.inl ⟨rfl, hp.called rfl⟩)⟩
      | punctuation =>
        obtain ⟨c, hc, rfl⟩ : ∃ c ∈ marks, text = [c] := hp.settled
        obtain ⟨s, rest, hscan, hopen, hclose, rfl | ⟨hrest, hne, hne'⟩⟩ :=
          scan_mark hc (ps.map Piece.text).flatten
        · exact ⟨_, .token hscan hlexes, hts.mark hopen hclose⟩
        · -- the next piece is the same mark
          cases ps with
          | nil => cases hrest
          | cons q qs =>
            obtain ⟨d, ds, htext⟩ := List.exists_cons_of_ne_nil hps.1.settled.isSegment.1.ne_nil
            rw [List.map_cons, List.flatten_cons, htext, List.cons_append] at hrest
            obtain ⟨rfl, htail⟩ := List.cons.inj hrest
            obtain rfl := eq_mark hps.1.settled hc (by rw [htext]; rfl)
            obtain rfl : [] = ds := (List.cons.inj htext).2
            rw [← htail] at hscan
            have hlength' : qs.length < n := (Nat.lt_succ_self _).trans hlength
            obtain ⟨us, hlexes', hus⟩ :=
              ih qs.length hlength' hps.2 (List.isChain_cons.1 hstar.2).2 rfl
            exact ⟨_, .token hscan hlexes', hus.twice hne (mt hopen.1 hne) (mt hclose.1 hne')⟩

theorem exists_spells (h : Fitted algebraic ps) (hstar : Unstarred algebraic ps) :
    ∃ ts, Spells ps ts := by
  obtain ⟨ts, hlexes, hts⟩ := exists_tokenized h hstar
  exact ⟨ts, hlexes, hts.numerals_eq, hts.names_eq true, hts.names_eq false⟩

/-! ## Canonical text -/

theorem not_mem_of_find?_contains {α : Type} [DecidableEq α] {xs ys : List α}
    (h : xs.find? ys.contains = none) : ∀ x ∈ xs, x ∉ ys := by
  rw [List.find?_eq_none] at h
  exact fun x hx hy => h x hx (List.contains_iff_mem.2 hy)

/-- **The names of a canonical form are those of its tokens.** It has tokens; the numerals, the
names in front of a parenthesis and the other names among them are the numbers, the functions
and the variables, each list in order of first occurrence. No name is both a variable and a
function, and the variables are those of the expression that the text is, if it is one. -/
theorem names_of_tokens {options : FormulaOptions} {raw : String} {s : Canonical}
    (h : canonicalize options raw = .ok s) :
    ∃ ls, lexemes s.text = .ok ls ∧
      (numerals (ls.map Lexeme.token)).eraseDups = s.names.constants ∧
      (names true (ls.map Lexeme.token)).eraseDups = s.names.functions ∧
      (names false (ls.map Lexeme.token)).eraseDups = s.names.vars ∧
      (∀ name ∈ s.names.vars, name ∉ s.names.functions) ∧
      ∀ limit e, Expr.parse limit s.text = .ok e → e.identifiers = s.names.vars := by
  obtain ⟨text, r, hplain, hread, htext, hnames, hdisjoint, -⟩ := reading_of_canonicalize h
  have hfitted := (fitted_of_readSegments hplain hread).starred
  obtain ⟨ts, hts⟩ := exists_spells hfitted (unstarred_starred options.algebraic r.pieces)
  have hwords : ∀ role, role ≠ .punctuation →
      wordsOf role (starred options.algebraic r.pieces) = wordsOf role r.pieces := by
    intro role hrole
    rw [wordsOf, filter_starred role hrole]
    rfl
  obtain ⟨ls, hls, rfl⟩ := hts.lexes 0
  rw [← joinPieces_eq, ← String.toList_ofList (l := joinPieces _ _), ← htext] at hls
  have hvars : (names false (ls.map Lexeme.token)).eraseDups = s.names.vars := by
    rw [hts.vars, hwords .free (by decide), hnames]
    rfl
  refine ⟨ls, hls, ?_, ?_, hvars, not_mem_of_find?_contains hdisjoint, fun limit e he => ?_⟩
  · rw [hts.constants, hwords .constant (by decide), hnames]
    rfl
  · rw [hts.functions, hwords .function (by decide), hnames]
    rfl
  · rw [Expr.parse, show lexemes s.text = .ok ls from hls] at he
    rw [← hvars, ← Phrase.mentions_of_derives (Expr.derives_of_ofLexemes he), Expr.mentions_bare]
    rfl

/-- Numerals that open or end with a point, two marks that are one token, and a function beside
variables. -/
theorem names_of_tokens_mixed :
    canonicalize .standard "2.x² // sin(x) - .5(x+r)" =
      .ok ⟨"2.*(x**2)//sin(x)-.5*(x+r)", ["x", "r"], ["2.", "2", ".5"], ["sin"], []⟩ ∧
    ∃ ls, lexemes "2.*(x**2)//sin(x)-.5*(x+r)" = .ok ls ∧
      (numerals (ls.map Lexeme.token)).eraseDups = ["2.", "2", ".5"] ∧
      (names true (ls.map Lexeme.token)).eraseDups = ["sin"] ∧
      (names false (ls.map Lexeme.token)).eraseDups = ["x", "r"] ∧
      (∀ name ∈ ["x", "r"], name ∉ ["sin"]) ∧
      ∀ limit e, Expr.parse limit "2.*(x**2)//sin(x)-.5*(x+r)" = .ok e →
        e.identifiers = ["x", "r"] := by
  have h : canonicalize .standard "2.x² // sin(x) - .5(x+r)" =
      .ok ⟨"2.*(x**2)//sin(x)-.5*(x+r)", ["x", "r"], ["2.", "2", ".5"], ["sin"], []⟩ := by
    decide +kernel
  exact ⟨h, names_of_tokens h⟩

end NodeFormula
