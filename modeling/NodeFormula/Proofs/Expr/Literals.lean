import NodeFormula.Proofs.Decimal.Defined
import NodeFormula.Proofs.Expr.CallForm
import NodeFormula.Proofs.Expr.Components
import NodeFormula.Proofs.Expr.Counter
/-!
# NodeFormula — the numbers of an expression

Every number in a parsed expression is a numeral of its text, with the value that the
numeral has (`readFrom_of_parse`), and lowering adds none. A numeral is written in digits, and
so a lowered expression holds floats that have no sign (`unsigned_of_lower`) and that equal
themselves (`defined_of_lower`).
-/

namespace NodeFormula

/-! ## Parsing -/

/-- The numbers of an expression are numerals among the lexemes, with their values. -/
def Expr.ReadFrom (ls : List Lexeme) (e : Expr) : Prop :=
  ∀ span v text, .number span v text ∈ e.preorder →
    (∃ l ∈ ls, l.token = .number text) ∧ readFloat? text = some v

namespace Expr

variable {ls : List Lexeme} {es : List Expr} {l r x : Expr}

theorem mem_preorderAll {n : Expr} : n ∈ preorderAll es ↔ ∃ e ∈ es, n ∈ e.preorder := by
  induction es with
  | nil => simp [preorderAll]
  | cons e es ih => simp [preorderAll, ih]

theorem ReadFrom.call (h : ∀ e ∈ es, e.ReadFrom ls) (span : Span) (f : String) :
    (call span f es).ReadFrom ls := by
  intro s v text hmem
  rw [preorder, List.mem_cons, mem_preorderAll] at hmem
  obtain heq | ⟨e, he, hmem⟩ := hmem
  · cases heq
  · exact h e he s v text hmem

theorem ReadFrom.tuple (h : ∀ e ∈ es, e.ReadFrom ls) (span : Span) :
    (tuple span es).ReadFrom ls := by
  intro s v text hmem
  rw [preorder, List.mem_cons, mem_preorderAll] at hmem
  obtain heq | ⟨e, he, hmem⟩ := hmem
  · cases heq
  · exact h e he s v text hmem

theorem ReadFrom.binary (hl : l.ReadFrom ls) (hr : r.ReadFrom ls) (span : Span) (op : BinaryOp) :
    (binary span op l r).ReadFrom ls := by
  intro s v text hmem
  rw [preorder, List.mem_cons, List.mem_append] at hmem
  obtain heq | hmem | hmem := hmem
  · cases heq
  · exact hl s v text hmem
  · exact hr s v text hmem

theorem ReadFrom.unary (hx : x.ReadFrom ls) (span : Span) (op : UnaryOp) :
    (unary span op x).ReadFrom ls := by
  intro s v text hmem
  rw [preorder, List.mem_cons] at hmem
  obtain heq | hmem := hmem
  · cases heq
  · exact hx s v text hmem

end Expr

namespace Parser

variable {ls : List Lexeme}

/-- A step over some of the lexemes gives what has a property, and leaves some of them. -/
def Reads {α : Type} (ls : List Lexeme) (P : α → Prop) (step : Step α) : Prop :=
  ∀ c a c', c.ahead ⊆ ls → step c = .ok (a, c') → P a ∧ c'.ahead ⊆ ls

theorem advance_subset {c : Cursor} (h : c.ahead ⊆ ls) : c.advance.ahead ⊆ ls := by
  rw [Cursor.advance]
  split
  · exact h
  · rename_i l rest hc
    exact fun x hx => h (hc ▸ List.mem_cons_of_mem l hx)

theorem expect_subset {s : Symbol} {c c' : Cursor} (h : c.ahead ⊆ ls) (hc : expect s c = .ok c') :
    c'.ahead ⊆ ls := by
  rw [expect] at hc
  split at hc
  · cases hc
    exact advance_subset h
  · cases hc

section

variable {below : Nat → Step Expr} (hbelow : ∀ least, Reads ls (Expr.ReadFrom ls) (below least))

include hbelow

theorem reads_others (trailing : Bool) (n : Nat) :
    Reads ls (fun es => ∀ e ∈ es, Expr.ReadFrom ls e) (others below trailing n) := by
  induction n with
  | zero =>
    intro c es c' hc h
    cases h
    exact ⟨nofun, hc⟩
  | succ n ih =>
    intro c es c' hc h
    cases others_eq_ok.1 h with
    | stop => exact ⟨nofun, hc⟩
    | last => exact ⟨nofun, advance_subset hc⟩
    | more _ _ he hes =>
      obtain ⟨he, hc₁⟩ := hbelow 0 _ _ _ (advance_subset hc) he
      obtain ⟨hes, hc₂⟩ := ih _ _ _ hc₁ hes
      exact ⟨List.forall_mem_cons.2 ⟨he, hes⟩, hc₂⟩

theorem reads_arguments : Reads ls (fun es => ∀ e ∈ es, Expr.ReadFrom ls e) (arguments below) := by
  intro c es c' hc h
  cases arguments_eq_ok.1 h with
  | empty hopen _ => exact ⟨nofun, advance_subset (expect_subset hc hopen)⟩
  | cons hopen _ he hes hclose =>
    obtain ⟨he, hc₂⟩ := hbelow 0 _ _ _ (expect_subset hc hopen) he
    obtain ⟨hes, hc₃⟩ := reads_others hbelow _ _ _ _ _ hc₂ hes
    exact ⟨List.forall_mem_cons.2 ⟨he, hes⟩, expect_subset hc₃ hclose⟩

theorem reads_parenthesized : Reads ls (Expr.ReadFrom ls) (parenthesized below) := by
  intro c e c' hc h
  cases parenthesized_eq_ok.1 h with
  | group hopen _ he _ hclose =>
    obtain ⟨he, hc₂⟩ := hbelow 0 _ _ _ (expect_subset hc hopen) he
    exact ⟨he, expect_subset hc₂ hclose⟩
  | tuple hopen _ he _ hes hclose =>
    obtain ⟨he, hc₂⟩ := hbelow 0 _ _ _ (expect_subset hc hopen) he
    obtain ⟨hes, hc₃⟩ := reads_others hbelow _ _ _ _ _ hc₂ hes
    exact ⟨.tuple (List.forall_mem_cons.2 ⟨he, hes⟩) _, expect_subset hc₃ hclose⟩

theorem reads_primary : Reads ls (Expr.ReadFrom ls) (primary below) := by
  intro c e c' hc h
  cases primary_eq_ok.1 h with
  | number htoken hv _ =>
    refine ⟨fun span v text' hmem => ?_, advance_subset hc⟩
    rw [Expr.preorder, List.mem_singleton] at hmem
    cases hmem
    obtain ⟨l, hl, htext⟩ := Option.map_eq_some_iff.1 htoken
    exact ⟨⟨l, hc (List.mem_of_mem_head? hl), htext⟩, hv⟩
  | ident =>
    refine ⟨fun span v text hmem => ?_, advance_subset hc⟩
    rw [Expr.preorder, List.mem_singleton] at hmem
    cases hmem
  | call _ _ hargs =>
    obtain ⟨hargs, hc₁⟩ := reads_arguments hbelow _ _ _ (advance_subset hc) hargs
    exact ⟨.call hargs _ _, hc₁⟩
  | parens _ he _ => exact reads_parenthesized hbelow _ _ _ hc he

theorem reads_operand : Reads ls (Expr.ReadFrom ls) (operand below) := by
  intro c e c' hc h
  cases operand_eq_ok.1 h with
  | signed _ he =>
    obtain ⟨he, hc₁⟩ := hbelow _ _ _ _ (advance_subset hc) he
    exact ⟨he.unary _ _, hc₁⟩
  | primary _ he => exact reads_primary hbelow _ _ _ hc he

theorem reads_climb (start least n : Nat) {left : Expr} (hleft : left.ReadFrom ls) :
    Reads ls (Expr.ReadFrom ls) (climb below start least n left) := by
  induction n generalizing left with
  | zero =>
    intro c e c' hc h
    cases h
    exact ⟨hleft, hc⟩
  | succ n ih =>
    intro c e c' hc h
    cases climb_eq_ok.1 h with
    | stop => exact ⟨hleft, hc⟩
    | more _ _ hright hrest =>
      obtain ⟨hright, hc₁⟩ := hbelow _ _ _ _ (advance_subset hc) hright
      exact ih (hleft.binary hright _ _) _ _ _ hc₁ hrest

theorem reads_chain (least : Nat) : Reads ls (Expr.ReadFrom ls) (chain below least) := by
  intro c e c' hc h
  rw [chain] at h
  obtain ⟨⟨left, c₁⟩, hleft, h⟩ := bind_eq_ok h
  obtain ⟨hleft, hc₁⟩ := reads_operand hbelow _ _ _ hc hleft
  exact reads_climb hbelow _ _ _ hleft _ _ _ hc₁ h

end

theorem reads_levelled (limit levels least : Nat) :
    Reads ls (Expr.ReadFrom ls) (levelled limit levels least) := by
  induction levels generalizing least with
  | zero => exact fun c e c' hc h => by rw [levelled] at h; cases h
  | succ levels ih => exact reads_chain ih least

end Parser

/-- **The numbers of a parsed expression are numerals of its text.** -/
theorem readFrom_of_parse {limit : Nat} {source : String} {e : Expr}
    (h : Expr.parse limit source = .ok e) :
    ∃ ls, lexemes source = .ok ls ∧ e.ReadFrom ls := by
  rw [Expr.parse] at h
  split at h
  · cases h
  · rename_i ls hls
    refine ⟨ls, hls, ?_⟩
    rw [Expr.ofLexemes_eq] at h
    obtain ⟨⟨e', c⟩, he, h⟩ := bind_eq_ok h
    dsimp only at h
    split at h
    · cases h
    · cases h
      exact (Parser.reads_levelled limit limit 0 _ _ _ (List.Subset.refl ls) he).1

/-! ## Lowering -/

namespace Expr

variable {s : Span} {v : Float} {t : String}

mutual

/-- Lowering adds no number. -/
theorem Rewrites.number_mem : ∀ {e e' : Expr}, Rewrites e e' → .number s v t ∈ e'.preorder →
    .number s v t ∈ e.preorder
  | _, _, .number .., hmem => hmem
  | _, _, .ident .., hmem => hmem
  | _, _, .binary _ _ hl hr, hmem => by
    simp only [preorder, preorderAll, List.append_nil, List.mem_cons, List.mem_append, reduceCtorEq,
      false_or] at hmem ⊢
    exact hmem.imp hl.number_mem hr.number_mem
  | _, _, .unary _ _ hx, hmem => by
    simp only [preorder, preorderAll, List.append_nil, List.mem_cons, reduceCtorEq, false_or] at hmem ⊢
    exact hx.number_mem hmem
  | _, _, .call _ _ hargs, hmem => by
    simp only [preorder, List.mem_cons, reduceCtorEq, false_or] at hmem ⊢
    exact hargs.number_mem hmem
  | _, _, .tuple _ hitems, hmem => by
    simp only [preorder, List.mem_cons, reduceCtorEq, false_or] at hmem ⊢
    exact hitems.number_mem hmem

theorem RewritesAll.number_mem : ∀ {es es' : List Expr}, RewritesAll es es' →
    .number s v t ∈ preorderAll es' → .number s v t ∈ preorderAll es
  | _, _, .nil, hmem => hmem
  | _, _, .cons he hes, hmem => by
    rw [preorderAll, List.mem_append] at hmem ⊢
    exact hmem.imp he.number_mem hes.number_mem

end

end Expr

/-- **The numbers of a lowered expression are read from numerals.** -/
theorem numeral_of_lower {limit : Nat} {text : String} {e : Expr} (h : lower limit text = .ok e)
    {span : Span} {v : Float} {t : String} (hmem : .number span v t ∈ e.preorder) :
    IsNumeral t.toList ∧ readFloat? t = some v := by
  obtain ⟨parsed, hparse, hcall⟩ := lower_eq_ok h
  obtain ⟨ls, hls, hread⟩ := readFrom_of_parse hparse
  obtain ⟨⟨l, hl, ht⟩, hvalue⟩ := hread span v t ((Expr.rewrites_of_callForm hcall).number_mem hmem)
  have hwritten := forall_lexemes (fun _ _ _ => written_of_scan) hls l hl
  rw [ht] at hwritten
  exact ⟨hwritten, hvalue⟩

/-- The numbers of a lowered expression have no sign. -/
theorem unsigned_of_lower {limit : Nat} {text : String} {e : Expr} (h : lower limit text = .ok e) :
    ∀ span v t, .number span v t ∈ e.preorder → Unsigned v := by
  intro span v t hmem
  obtain ⟨hnumeral, hvalue⟩ := numeral_of_lower h hmem
  refine unsigned_of_readFloat? (fun hhead => ?_) hvalue
  rcases hnumeral.digit_or_point (List.mem_of_mem_head? hhead) with hc | hc
  · exact absurd hc (by decide)
  · exact absurd hc (by decide)

/-- The numbers of a lowered expression equal themselves. -/
theorem defined_of_lower {limit : Nat} {text : String} {e : Expr} (h : lower limit text = .ok e) :
    ∀ span v t, .number span v t ∈ e.preorder → Defined v := by
  intro span v t hmem
  obtain ⟨hnumeral, hvalue⟩ := numeral_of_lower h hmem
  exact defined_of_readFloat? hnumeral hvalue

end NodeFormula
