import NodeFormula.Proofs.Expr.Complete
import NodeFormula.Proofs.Expr.Counter
/-!
# NodeFormula — the parser decides the grammar

With more levels than tokens the limit is never met (`shallow_levelled`), since every level that
the parser goes down takes a token with it. So the parser returns the tree of the grammar
where there is one, and a fault of the text itself where there is none.
-/

namespace NodeFormula

open Phrase

namespace Parser

/-! ## The limit -/

/-- A result is not that the limit was met. -/
def Shallow {α : Type} (r : Except ParseError α) : Prop :=
  ∀ err, r = .error err → ∀ k, err.fault ≠ .tooDeep k

namespace Shallow

variable {α β : Type}

theorem ok (a : α) : Shallow (.ok a) := by
  intro err h
  cases h

theorem error {fault : ParseFault} {span : Span} (h : ∀ k, fault ≠ .tooDeep k) :
    Shallow (.error ⟨fault, span⟩ : Except ParseError α) := by
  intro err herr
  cases herr
  exact h

theorem bind {r : Except ParseError α} {f : α → Except ParseError β} (hr : Shallow r)
    (hf : ∀ a, r = .ok a → Shallow (f a)) : Shallow (r >>= f) := by
  cases r with
  | ok a => exact hf a rfl
  | error e =>
    intro err herr
    cases herr
    exact hr e rfl

end Shallow

theorem shallow_expect (s : Symbol) (c : Cursor) : Shallow (expect s c) := by
  rw [expect]
  split
  · exact .ok _
  · exact .error fun _ h => by cases h

section

/-! The level below is shallow on fewer than `n` tokens. -/

variable {below : Nat → Step Expr} (hsound : Sound below) {n : Nat}
  (hbelow : ∀ least c, c.tokens.length < n → Shallow (below least c))

include hsound hbelow

theorem shallow_others (trailing : Bool) (m : Nat) {c : Cursor} (hc : c.tokens.length ≤ n) :
    Shallow (others below trailing m c) := by
  induction m generalizing c with
  | zero => exact .ok _
  | succ m ih =>
    rw [others]
    split
    · rename_i hcomma
      rw [Cursor.tokens_of_sees hcomma, List.length_cons] at hc
      dsimp only
      split
      · exact .ok _
      · refine (hbelow 0 c.advance hc).bind fun x hx => ?_
        have hlen := hsound.length_le hx
        exact (ih (by omega)).bind fun _ _ => .ok _
    · exact .ok _

theorem shallow_arguments {c : Cursor} (hc : c.tokens.length ≤ n) : Shallow (arguments below c) := by
  rw [arguments]
  refine (shallow_expect _ _).bind fun c₁ hopen => ?_
  rw [tokens_of_expect hopen, List.length_cons] at hc
  split
  · exact .ok _
  · refine (hbelow 0 c₁ hc).bind fun x hx => ?_
    have hlen := hsound.length_le hx
    refine (shallow_others hsound hbelow _ _ (by omega)).bind fun y _ => ?_
    exact (shallow_expect _ _).bind fun _ _ => .ok _

theorem shallow_parenthesized {c : Cursor} (hc : c.tokens.length ≤ n) :
    Shallow (parenthesized below c) := by
  rw [parenthesized]
  refine (shallow_expect _ _).bind fun c₁ hopen => ?_
  rw [tokens_of_expect hopen, List.length_cons] at hc
  split
  · exact .error fun _ h => by cases h
  · refine (hbelow 0 c₁ hc).bind fun x hx => ?_
    have hlen := hsound.length_le hx
    dsimp only
    split
    · refine (shallow_others hsound hbelow _ _ (by omega)).bind fun y _ => ?_
      exact (shallow_expect _ _).bind fun _ _ => .ok _
    · exact (shallow_expect _ _).bind fun _ _ => .ok _

theorem shallow_primary {c : Cursor} (hc : c.tokens.length ≤ n) : Shallow (primary below c) := by
  rw [primary]
  dsimp only
  split
  · split
    · exact .error fun _ h => by cases h
    · split
      · exact .error fun _ h => by cases h
      · exact .ok _
  · split
    · have hlen : c.advance.tokens.length ≤ n := by
        rw [c.tokens_advance, List.length_tail]
        omega
      exact (shallow_arguments hsound hbelow hlen).bind fun _ _ => .ok _
    · exact .ok _
  · refine (shallow_parenthesized hsound hbelow hc).bind fun x _ => ?_
    split
    · exact .error fun _ h => by cases h
    · exact .ok _
  · exact .error fun _ h => by cases h

theorem shallow_operand {c : Cursor} (hc : c.tokens.length ≤ n) : Shallow (operand below c) := by
  rw [operand]
  split
  · rename_i op hsign
    obtain ⟨s, hs, -⟩ := Cursor.sign?_eq_some.1 hsign
    rw [Cursor.tokens_of_head hs, List.length_cons] at hc
    exact (hbelow _ _ hc).bind fun _ _ => .ok _
  · exact shallow_primary hsound hbelow hc

theorem shallow_climb (start least m : Nat) {left : Expr} {c : Cursor} (hc : c.tokens.length ≤ n) :
    Shallow (climb below start least m left c) := by
  induction m generalizing left c with
  | zero => exact .ok _
  | succ m ih =>
    rw [climb]
    split
    · exact .ok _
    · rename_i b hb
      split
      · exact .ok _
      · obtain ⟨s, hs, -⟩ := Cursor.binding?_eq_some.1 hb
        rw [Cursor.tokens_of_head hs, List.length_cons] at hc
        refine (hbelow _ _ hc).bind fun x hx => ?_
        have hlen := hsound.length_le hx
        exact ih (by omega)

theorem shallow_chain (least : Nat) {c : Cursor} (hc : c.tokens.length ≤ n) :
    Shallow (chain below least c) := by
  rw [chain]
  refine (shallow_operand hsound hbelow hc).bind fun x hx => ?_
  obtain ⟨ts, q, hts, -⟩ := sound_operand hsound hx
  rw [hts, List.length_append] at hc
  exact shallow_climb hsound hbelow _ _ _ (by omega)

end

/-- **More levels than tokens are enough.** -/
theorem shallow_levelled (limit : Nat) {levels least : Nat} {c : Cursor}
    (h : c.tokens.length < levels) : Shallow (levelled limit levels least c) := by
  induction levels generalizing least c with
  | zero => exact absurd h (Nat.not_lt_zero _)
  | succ levels ih =>
    exact shallow_chain (sound_levelled limit levels) (fun _ _ => ih) least (Nat.le_of_lt_succ h)

end Parser

/-! ## Whole lists of lexemes -/

namespace Expr

open Parser

variable {limit : Nat} {ls : List Lexeme}

theorem ofLexemes_eq_ok {e : Expr} :
    ofLexemes limit ls = .ok e ↔
      ∃ c, levelled limit limit 0 (.start ls) = .ok (e, c) ∧ c.tokens = [] := by
  rw [ofLexemes_eq]
  cases h : levelled limit limit 0 (.start ls) with
  | error err => simp [bind, Except.bind]
  | ok x =>
    simp only [bind, Except.bind]
    rw [x.2.token?_eq]
    cases hts : x.2.tokens with
    | nil =>
      simp only [List.head?_nil, pure, Except.pure, Except.ok.injEq]
      constructor
      · rintro rfl
        exact ⟨x.2, rfl, hts⟩
      · rintro ⟨c, hx, -⟩
        rw [hx]
    | cons t ts =>
      simp only [List.head?_cons, throw, throwThe, MonadExceptOf.throw, reduceCtorEq, false_iff]
      rintro ⟨c, hx, hc⟩
      rw [Except.ok.inj hx] at hts
      exact absurd (hc.symm.trans hts) (List.cons_ne_nil _ _).symm

theorem derives_of_ofLexemes {e : Expr} (h : ofLexemes limit ls = .ok e) :
    Derives .comparison (ls.map Lexeme.token) e.bare := by
  obtain ⟨c, hexpr, hc⟩ := ofLexemes_eq_ok.1 h
  obtain ⟨ts, hts, he⟩ := (sound_levelled limit limit).whole hexpr
  rw [hc, List.append_nil] at hts
  subst hts
  exact he

/-- What is accepted with fewer levels than the limit is read. -/
theorem ofLexemes_of_accepts {n : Nat} {t : Expr} (hn : n < limit)
    (h : ∀ m, n ≤ m → Accepts m .comparison (ls.map Lexeme.token) t) :
    ∃ e, ofLexemes limit ls = .ok e ∧ e.bare = t := by
  obtain ⟨m, rfl⟩ : ∃ k, limit = k + 1 := ⟨limit - 1, by omega⟩
  have htokens : (Cursor.start ls).tokens = ls.map Lexeme.token ++ [] := (List.append_nil _).symm
  obtain ⟨e, c, hexpr, he, hc⟩ := (h m (by omega)).expr (m + 1) htokens mayPrecede_nil
    (Nat.zero_le _) (by intro s b hs; cases hs)
  exact ⟨e, ofLexemes_eq_ok.2 ⟨c, hexpr, hc⟩, he⟩

theorem shallow_ofLexemes (h : ls.length < limit) : Shallow (ofLexemes limit ls) := by
  rw [ofLexemes_eq]
  refine (shallow_levelled limit (by rw [← Cursor.length_ahead]; exact h)).bind fun x _ => ?_
  dsimp only
  split
  · exact .error fun _ h => by cases h
  · exact .ok _

/-- **The parser decides the grammar.** If the limit exceeds the number of lexemes, then the
parser returns a tree exactly if the tokens are a comparison of the grammar, and it returns the
tree of the grammar; there is at most one. If there is none, the fault is not the limit. -/
theorem ofLexemes_exact (ls : List Lexeme) (h : ls.length < limit) :
    (∀ t, (∃ e, ofLexemes limit ls = .ok e ∧ e.bare = t) ↔
      Derives .comparison (ls.map Lexeme.token) t) ∧
    (∀ t t', Derives .comparison (ls.map Lexeme.token) t →
      Derives .comparison (ls.map Lexeme.token) t' → t = t') ∧
    ((∀ t, ¬ Derives .comparison (ls.map Lexeme.token) t) →
      ∃ err, ofLexemes limit ls = .error err ∧ ∀ k, err.fault ≠ .tooDeep k) := by
  have hread : ∀ t, Derives .comparison (ls.map Lexeme.token) t →
      ∃ e, ofLexemes limit ls = .ok e ∧ e.bare = t := by
    intro t ht
    refine ofLexemes_of_accepts h fun m hm => accepts_of_derives ht ?_
    rw [List.length_map]
    exact hm
  refine ⟨fun t => ⟨?_, hread t⟩, ?_, ?_⟩
  · rintro ⟨e, he, rfl⟩
    exact derives_of_ofLexemes he
  · intro t t' ht ht'
    obtain ⟨e, he, rfl⟩ := hread t ht
    obtain ⟨e', he', rfl⟩ := hread t' ht'
    rw [Except.ok.inj (he.symm.trans he')]
  · intro hnone
    cases hparse : ofLexemes limit ls with
    | ok e => exact absurd (derives_of_ofLexemes hparse) (hnone e.bare)
    | error err => exact ⟨err, rfl, shallow_ofLexemes h err hparse⟩

/-- The lexemes of `-x ** -y`, all at one place. -/
def signedPower : List Lexeme :=
  [.symbol .minus, .ident "x", .symbol .starStar, .symbol .minus, .ident "y"].map
    (⟨·, .point 0⟩ : Token → Lexeme)

/-- A sign reaches over `**`, and the operand behind `**` may have a sign of its own. -/
theorem ofLexemes_exact_of_signs :
    signedPower.length < 6 ∧
      ∃ e, ofLexemes 6 signedPower = .ok e ∧
        e.bare = .unary (.point 0) .neg (.binary (.point 0) .pow (.ident (.point 0) "x")
          (.unary (.point 0) .neg (.ident (.point 0) "y"))) := by
  have hlen : signedPower.length < 6 := by decide
  have hy : Derives .signed [.symbol .minus, .ident "y"]
      (.unary (.point 0) .neg (.ident (.point 0) "y")) :=
    .signed rfl ((Derives.ident "y").loosen (by decide))
  have hpower := Derives.power (.lift rfl (.ident "x")) hy
  have hsigned := @Derives.signed .minus .neg _ _ rfl (.lift rfl hpower)
  exact ⟨hlen, ((ofLexemes_exact signedPower hlen).1 _).2 (hsigned.loosen (by decide))⟩

end Expr

end NodeFormula
