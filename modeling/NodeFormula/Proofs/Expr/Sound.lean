import NodeFormula.Proofs.Expr.Grammar
import NodeFormula.Proofs.Expr.Steps
/-!
# NodeFormula — what the parser accepts is in the grammar

A step of the parser consumes tokens; what it returns is the tree of a phrase of these
tokens. Which phrase depends on the least power of its operators (`Phrase.loosest`). The
heart is the loop over operators, `sound_climb`: what it has read so far is a phrase that
the operator ahead may follow.
-/

namespace NodeFormula

open Phrase

namespace Parser

/-! ## Cursors -/

namespace Cursor

/-- The tokens ahead. -/
def tokens (c : Cursor) : List Token := c.ahead.map Lexeme.token

variable {c c' : Cursor} {s : Symbol}

theorem length_ahead (c : Cursor) : c.ahead.length = c.tokens.length := by
  rw [tokens, List.length_map]

theorem token?_eq (c : Cursor) : c.token? = c.tokens.head? := by
  rw [token?, tokens, List.head?_map]

theorem tokens_advance (c : Cursor) : c.advance.tokens = c.tokens.tail := by
  obtain ⟨ahead, behind, depth⟩ := c
  cases ahead <;> rfl

theorem sees_iff : c.sees s ↔ c.tokens.head? = some (.symbol s) := by
  rw [sees, token?_eq, beq_iff_eq]

theorem tokens_of_head {t : Token} (h : c.tokens.head? = some t) :
    c.tokens = t :: c.advance.tokens := by
  rw [tokens_advance]
  cases hts : c.tokens with
  | nil =>
    rw [hts] at h
    cases h
  | cons t' ts =>
    rw [hts, List.head?_cons] at h
    rw [Option.some.inj h, List.tail_cons]

theorem tokens_of_sees (h : c.sees s) : c.tokens = .symbol s :: c.advance.tokens :=
  tokens_of_head (sees_iff.1 h)

theorem binding?_eq_some {b : Binding} :
    c.binding? = some b ↔ ∃ s, c.tokens.head? = some (.symbol s) ∧ Parser.binding? s = some b := by
  rw [Cursor.binding?, token?_eq]
  cases c.tokens.head? with
  | none => simp
  | some t => cases t <;> simp

theorem sign?_eq_some {op : UnaryOp} :
    c.sign? = some op ↔ ∃ s, c.tokens.head? = some (.symbol s) ∧ Parser.sign? s = some op := by
  rw [Cursor.sign?, token?_eq]
  cases c.tokens.head? with
  | none => simp
  | some t => cases t <;> simp

end Cursor

theorem expect_eq_ok {s : Symbol} {c c' : Cursor} :
    expect s c = .ok c' ↔ c.sees s ∧ c' = c.advance := by
  rw [expect]
  split
  · rename_i h
    simp [h, eq_comm]
  · rename_i h
    simp [h]

theorem tokens_of_expect {s : Symbol} {c c' : Cursor} (h : expect s c = .ok c') :
    c.tokens = .symbol s :: c'.tokens := by
  obtain ⟨hsees, rfl⟩ := expect_eq_ok.1 h
  exact Cursor.tokens_of_sees hsees

end Parser

/-! ## Powers of operators -/

namespace Phrase

/-- The loosest phrase whose operators all have the given power or a greater one. -/
def loosest (least : Nat) : Phrase :=
  if least ≤ 5 then comparison else if least ≤ 10 then bitOr else if least ≤ 12 then bitXor
  else if least ≤ 14 then bitAnd else if least ≤ 20 then sum else if least ≤ 30 then product
  else signed

/-- The greatest power of an operator that may stand behind a phrase as a whole. -/
def follow : Phrase → Nat
  | comparison => 5 | bitOr => 10 | bitXor => 12 | bitAnd => 14 | sum => 20
  | product | signed | power => 30
  | applied | atom => 50

end Phrase

namespace Parser

theorem loosest_rank_le_signed (n : Nat) : (loosest n).rank ≤ Phrase.signed.rank := by
  grind [loosest, rank]

theorem loosest_rank_le {p : Phrase} {n : Nat} (h : n ≤ p.follow) : (loosest n).rank ≤ p.rank := by
  cases p <;> grind [loosest, rank, follow]

/-- An operator that groups to the left joins phrases of the kind that its power tells. -/
theorem left_of_binding? {s : Symbol} {b : Binding} (h : binding? s = some b)
    (hpow : s ≠ .starStar) :
    b.op ∈ (loosest b.power).operators ∧ s.text = b.op.symbol ∧
      (loosest b.power).tighter? = some (loosest b.right) ∧ b.right = b.power + 1 ∧
      (loosest b.power).follow = b.power := by
  cases s <;> cases h
  case starStar => exact absurd rfl hpow
  all_goals exact ⟨by decide, by decide, by decide, rfl, by decide⟩

theorem sign_of_sign? {s : Symbol} {op : UnaryOp} (h : sign? s = some op) : s.text = op.symbol := by
  cases s <;> cases h <;> decide

theorem power_le_fifty {c : Cursor} {b : Binding} (h : c.binding? = some b) :
    b.power ≤ Phrase.applied.follow := by
  obtain ⟨s, -, hs⟩ := Cursor.binding?_eq_some.1 h
  cases s <;> cases hs <;> decide

/-- No operator lies between the signs and `**`. -/
theorem power_le_of_lt {c : Cursor} {b : Binding} (h : c.binding? = some b) (hlt : b.power < 50) :
    b.power ≤ Phrase.signed.follow := by
  obtain ⟨s, -, hs⟩ := Cursor.binding?_eq_some.1 h
  cases s <;> cases hs <;> revert hlt <;> decide

/-- **One round of the loop over operators.** A phrase that the operator may follow, the
operator and its right operand are a phrase that the next operator may follow. -/
theorem derives_binary {s : Symbol} {b : Binding} {q : Phrase} {least : Nat} {ts us : List Token}
    {l r : Expr} {c : Cursor} (hs : binding? s = some b) (hq : b.power ≤ q.follow)
    (hleast : least ≤ b.power) (hl : Derives q ts l.bare) (hr : Derives (loosest b.right) us r.bare)
    (hstop : ∀ b', c.binding? = some b' → b'.power < b.right) (span : Span) :
    ∃ p, Derives p (ts ++ .symbol s :: us) (Expr.binary span b.op l r).bare ∧
      (loosest least).rank ≤ p.rank ∧ ∀ b', c.binding? = some b' → b'.power ≤ p.follow := by
  rw [Expr.bare]
  by_cases hpow : s = .starStar
  · subst hpow
    cases hs
    refine ⟨.power, .power (hl.loosen ?_) hr, ?_, fun b' hb' => power_le_of_lt hb' (hstop b' hb')⟩
    · cases q <;> revert hq <;> decide
    · exact Nat.le_trans (loosest_rank_le_signed least) (by decide)
  · obtain ⟨hop, htext, htighter, hright, hfollow⟩ := left_of_binding? hs hpow
    refine ⟨loosest b.power, .chain htighter hop htext (hl.loosen (loosest_rank_le hq)) hr, ?_, ?_⟩
    · exact loosest_rank_le (Nat.le_trans hleast (Nat.le_of_eq hfollow.symm))
    · intro b' hb'
      have := hstop b' hb'
      omega

/-! ## Soundness -/

/-- What a parser of operands returns is the tree of the tokens it consumes, and it leaves no
operator ahead that it should have taken. -/
def Sound (below : Nat → Step Expr) : Prop :=
  ∀ least c e c', below least c = .ok (e, c') →
    ∃ ts, c.tokens = ts ++ c'.tokens ∧ Derives (loosest least) ts e.bare ∧
      ∀ b, c'.binding? = some b → b.power < least

section

variable {below : Nat → Step Expr} (hbelow : Sound below)

include hbelow

theorem Sound.length_le {least : Nat} {c c' : Cursor} {e : Expr}
    (h : below least c = .ok (e, c')) : c'.tokens.length ≤ c.tokens.length := by
  obtain ⟨ts, hts, -⟩ := hbelow least c e c' h
  rw [hts, List.length_append]
  exact Nat.le_add_left _ _

/-- An operand in which all operators are allowed. -/
theorem Sound.whole {c c' : Cursor} {e : Expr} (h : below 0 c = .ok (e, c')) :
    ∃ ts, c.tokens = ts ++ c'.tokens ∧ Derives .comparison ts e.bare := by
  obtain ⟨ts, hts, he, -⟩ := hbelow 0 c e c' h
  exact ⟨ts, hts, he⟩

theorem sound_others (trailing : Bool) (n : Nat) {c c' : Cursor} {es : List Expr}
    (h : others below trailing n c = .ok (es, c')) :
    ∃ parts : List Part, (∀ x ∈ parts, Derives .comparison x.1 x.2) ∧
      Expr.bareAll es = parts.map Prod.snd ∧
      (c.tokens = behindCommas parts ++ c'.tokens ∨
        trailing = true ∧ c.tokens = behindCommas parts ++ .symbol .comma :: c'.tokens) := by
  induction n generalizing c es with
  | zero =>
    cases h
    exact ⟨[], List.forall_mem_nil _, rfl, .inl rfl⟩
  | succ n ih =>
    cases others_eq_ok.1 h with
    | stop _ => exact ⟨[], List.forall_mem_nil _, rfl, .inl rfl⟩
    | last hcomma htrailing _ =>
      exact ⟨[], List.forall_mem_nil _, rfl, .inr ⟨htrailing, Cursor.tokens_of_sees hcomma⟩⟩
    | @more e es _ _ hcomma _ he hes =>
      obtain ⟨ts, hts, he⟩ := hbelow.whole he
      obtain ⟨parts, hparts, hbare, hrest⟩ := ih hes
      refine ⟨(ts, e.bare) :: parts, List.forall_mem_cons.2 ⟨he, hparts⟩, ?_, ?_⟩
      · rw [Expr.bareAll, hbare, List.map_cons]
      · rw [Cursor.tokens_of_sees hcomma, hts]
        rcases hrest with hrest | ⟨htrailing, hrest⟩
        · exact .inl (by simp [behindCommas, hrest])
        · exact .inr ⟨htrailing, by simp [behindCommas, hrest]⟩

theorem sound_arguments {c c' : Cursor} {es : List Expr} (f : String)
    (h : arguments below c = .ok (es, c')) :
    ∃ ts, c.tokens = ts ++ c'.tokens ∧
      Derives .applied (.ident f :: ts) (.call (.point 0) f (Expr.bareAll es)) := by
  cases arguments_eq_ok.1 h with
  | empty hopen hclose =>
    rw [tokens_of_expect hopen, Cursor.tokens_of_sees hclose]
    exact ⟨[_, _], rfl, .callEmpty f⟩
  | @cons e es _ _ _ _ hopen _ he hes hclose =>
    obtain ⟨ts, hts, he⟩ := hbelow.whole he
    obtain ⟨parts, hparts, hbare, hrest⟩ := sound_others hbelow _ _ hes
    replace hrest := hrest.resolve_right (by simp)
    rw [Expr.bareAll, hbare]
    refine ⟨.symbol .lparen :: ts ++ behindCommas parts ++ [.symbol .rparen], ?_, ?_⟩
    · rw [tokens_of_expect hopen, hts, hrest, tokens_of_expect hclose]
      simp
    · exact @Derives.call f (ts, e.bare) parts he hparts

theorem sound_parenthesized {c c' : Cursor} {e : Expr} (h : parenthesized below c = .ok (e, c')) :
    ∃ ts, c.tokens = ts ++ c'.tokens ∧ Derives .atom ts e.bare := by
  cases parenthesized_eq_ok.1 h with
  | group hopen _ he _ hclose =>
    obtain ⟨ts, hts, he⟩ := hbelow.whole he
    refine ⟨.symbol .lparen :: ts ++ [.symbol .rparen], ?_, he.group⟩
    rw [tokens_of_expect hopen, hts, tokens_of_expect hclose]
    simp
  | @tuple e es _ _ _ _ hopen _ he hcomma hes hclose =>
    obtain ⟨ts, hts, he⟩ := hbelow.whole he
    replace hclose := tokens_of_expect hclose
    obtain ⟨parts, hparts, hbare, hrest⟩ := sound_others hbelow _ _ hes
    rw [tokens_of_expect hopen, hts, Expr.bare, Expr.bareAll, hbare]
    rcases hrest with hrest | ⟨-, hrest⟩
    · have hne : parts ≠ [] := by
        rintro rfl
        rw [Cursor.sees_iff, hrest, hclose] at hcomma
        cases hcomma
      refine ⟨.symbol .lparen :: ts ++ behindCommas parts ++ [] ++ [.symbol .rparen], ?_, ?_⟩
      · rw [hrest, hclose]
        simp
      · exact @Derives.tuple (ts, e.bare) parts [] he hparts (.inr ⟨rfl, hne⟩)
    · refine ⟨.symbol .lparen :: ts ++ behindCommas parts ++ [.symbol .comma] ++
        [.symbol .rparen], ?_, ?_⟩
      · rw [hrest, hclose]
        simp
      · exact @Derives.tuple (ts, e.bare) parts _ he hparts (.inl rfl)

theorem sound_primary {c c' : Cursor} {e : Expr} (h : primary below c = .ok (e, c')) :
    ∃ ts, c.tokens = ts ++ c'.tokens ∧ Derives .applied ts e.bare := by
  cases primary_eq_ok.1 h with
  | @number text v htoken hv _ =>
    replace htoken := Cursor.tokens_of_head (c.token?_eq ▸ htoken)
    exact ⟨[.number text], htoken, .lift rfl (.number hv)⟩
  | @ident name htoken _ =>
    replace htoken := Cursor.tokens_of_head (c.token?_eq ▸ htoken)
    exact ⟨[.ident name], htoken, .lift rfl (.ident name)⟩
  | @call name args _ htoken _ hargs =>
    replace htoken := Cursor.tokens_of_head (c.token?_eq ▸ htoken)
    obtain ⟨ts, hts, hcall⟩ := sound_arguments hbelow name hargs
    exact ⟨.ident name :: ts, by rw [htoken, hts]; rfl, hcall⟩
  | parens _ he _ =>
    obtain ⟨ts, hts, he⟩ := sound_parenthesized hbelow he
    exact ⟨ts, hts, .lift rfl he⟩

/-- An operand is a phrase that the operator ahead may follow. -/
theorem sound_operand {c c' : Cursor} {e : Expr} (h : operand below c = .ok (e, c')) :
    ∃ ts q, c.tokens = ts ++ c'.tokens ∧ Derives q ts e.bare ∧ Phrase.signed.rank ≤ q.rank ∧
      ∀ b, c'.binding? = some b → b.power ≤ q.follow := by
  cases operand_eq_ok.1 h with
  | signed hsign he =>
    obtain ⟨s, hs, hop⟩ := Cursor.sign?_eq_some.1 hsign
    obtain ⟨ts, hts, he, hstop⟩ := hbelow _ _ _ _ he
    refine ⟨.symbol s :: ts, .signed, ?_, .signed (sign_of_sign? hop) he, Nat.le_refl _, ?_⟩
    · rw [Cursor.tokens_of_head hs, hts]
      rfl
    · intro b hb
      exact power_le_of_lt hb (Nat.lt_trans (hstop b hb) (by decide))
  | primary _ he =>
    obtain ⟨ts, hts, he⟩ := sound_primary hbelow he
    exact ⟨ts, .applied, hts, he, by decide, fun b hb => power_le_fifty hb⟩

/-- **The loop over operators is sound.** What is read so far is a phrase that the operator
ahead may follow, and so is what is read after one more round. -/
theorem sound_climb {start least n : Nat} {left e : Expr} {c c' : Cursor} {read : List Token}
    {q : Phrase} (hread : Derives q read left.bare) (hq : (loosest least).rank ≤ q.rank)
    (hahead : ∀ b, c.binding? = some b → b.power ≤ q.follow) (hn : c.tokens.length ≤ n)
    (h : climb below start least n left c = .ok (e, c')) :
    ∃ ts, c.tokens = ts ++ c'.tokens ∧ Derives (loosest least) (read ++ ts) e.bare ∧
      ∀ b, c'.binding? = some b → b.power < least := by
  induction n generalizing left c read q with
  | zero =>
    cases h
    refine ⟨[], rfl, by simpa using hread.loosen hq, fun b hb => ?_⟩
    obtain ⟨s, hs, -⟩ := Cursor.binding?_eq_some.1 hb
    rw [List.length_eq_zero_iff.1 (Nat.le_zero.1 hn)] at hs
    cases hs
  | succ n ih =>
    cases climb_eq_ok.1 h with
    | stop hstop => exact ⟨[], rfl, by simpa using hread.loosen hq, hstop⟩
    | @more b right _ c₁ _ hb hmore hright hrest =>
      obtain ⟨us, hus, hright, hstop⟩ := hbelow _ _ _ _ hright
      obtain ⟨s, hs, hbind⟩ := Cursor.binding?_eq_some.1 hb
      have htokens := Cursor.tokens_of_head hs
      rw [hus] at htokens
      obtain ⟨p, hp, hrank, hnext⟩ :=
        derives_binary hbind (hahead b hb) hmore hread hright hstop _
      have hlen : c₁.tokens.length ≤ n := by
        rw [htokens] at hn
        simp only [List.length_cons, List.length_append] at hn
        omega
      obtain ⟨ts, hts, he, hlast⟩ := ih hp hrank hnext hlen hrest
      refine ⟨.symbol s :: us ++ ts, by rw [htokens, hts]; simp, ?_, hlast⟩
      simpa using he

theorem sound_chain : Sound (chain below) := by
  intro least c e c' h
  rw [chain] at h
  obtain ⟨⟨left, c₁⟩, hleft, h⟩ := bind_eq_ok h
  obtain ⟨ts, q, hts, hleft, hrank, hahead⟩ := sound_operand hbelow hleft
  obtain ⟨us, hus, he, hstop⟩ := sound_climb hbelow hleft
    (Nat.le_trans (loosest_rank_le_signed least) hrank) hahead (Nat.le_of_eq c₁.length_ahead.symm) h
  exact ⟨ts ++ us, by rw [hts, hus, List.append_assoc], he, hstop⟩

end

/-- An expression of operators of at least the least power, with the given number of levels
left of the limit: the parser as a recursion on these levels, which looks at no count. -/
def levelled (limit : Nat) : Nat → Nat → Step Expr
  | 0, _ => fun c => .error ⟨.tooDeep limit, c.here⟩
  | levels + 1, least => chain (levelled limit levels) least

theorem sound_levelled (limit levels : Nat) : Sound (levelled limit levels) := by
  induction levels with
  | zero =>
    intro least c e c' h
    rw [levelled] at h
    cases h
  | succ levels ih => exact sound_chain ih

end Parser

end NodeFormula
