import Mathlib.Data.List.Forall2
import NodeFormula.Proofs.Expr.Limit
import NodeFormula.Proofs.Expr.Moved
/-!
# NodeFormula — spans point at the text of their node

A step of the parser looks at the lexemes that it takes and at one token behind them. So it
takes the same lexemes elsewhere, moved and with that token or nothing behind them (`Takes`).
Each node of what it returns then stands over a part of these lexemes from which the parser, on
its own and from the loosest operator on, makes that node again (`Located`). In the loop over
operators each left operand is such a node too: `Gathers` says what the loop has in hand, and
that it would have stopped there at the end of the text.
-/

namespace NodeFormula

namespace Expr

/-- The operands, arguments or elements of a node. -/
def children : Expr → List Expr
  | number .. => []
  | ident .. => []
  | binary _ _ l r => [l, r]
  | unary _ _ x => [x]
  | call _ _ args => args
  | tuple _ items => items

theorem preorder_eq (e : Expr) : e.preorder = e :: preorderAll e.children := by
  cases e <;> simp [preorder, children, preorderAll]

theorem self_mem_preorder (e : Expr) : e ∈ e.preorder := by
  rw [preorder_eq]
  exact List.mem_cons_self

end Expr

namespace Parser

/-! ## Taking lexemes -/

/-- **A step takes certain lexemes** wherever they stand, if they are followed by the token that
is next or by nothing, and returns `e`, moved as the lexemes are. -/
def Takes (step : Step Expr) (ls : List Lexeme) (next : Option Token) (e : Expr) : Prop :=
  ∀ k p rest, Shows next rest → step ⟨ls.map (Lexeme.shift k) ++ rest, p, 0⟩
    = .ok (e.shift k, ⟨rest, endOf p (ls.map (Lexeme.shift k)), 0⟩)

/-! ## Nodes over their lexemes -/

/-- Trees stand over parts of certain lexemes, one behind the other. -/
def InTurn (ls : List Lexeme) (es : List Expr) : Prop :=
  ∃ parts : List (List Lexeme), parts.flatten.Sublist ls ∧
    List.Forall₂ (fun e part => part ≠ [] ∧ e.span = extent part) es parts

/-- A node stands over certain lexemes, from which `whole` makes it, and its children stand over
parts of them, one behind the other. -/
structure Located (whole : Step Expr) (ls : List Lexeme) (n : Expr) : Prop where
  ne_nil : ls ≠ []
  span : n.span = extent ls
  /-- The lexemes alone are read as the node. -/
  again : ∀ k p, whole ⟨ls.map (Lexeme.shift k), p, 0⟩
    = .ok (n.shift k, ⟨[], endOf p (ls.map (Lexeme.shift k)), 0⟩)
  children : InTurn ls n.children

/-- All nodes of a list of trees stand over parts of certain lexemes, and the trees do so one
behind the other. -/
structure Spread (whole : Step Expr) (ls : List Lexeme) (es : List Expr) : Prop where
  nodes : ∀ n ∈ Expr.preorderAll es, ∃ part, part <:+: ls ∧ Located whole part n
  inTurn : InTurn ls es

/-- All nodes of a tree stand over parts of certain lexemes. -/
def Everywhere (whole : Step Expr) (ls : List Lexeme) (e : Expr) : Prop :=
  ∀ n ∈ e.preorder, ∃ part, part <:+: ls ∧ Located whole part n

section

variable {whole : Step Expr} {ls ls' : List Lexeme} {e : Expr} {es : List Expr}

theorem Everywhere.mono (h : Everywhere whole ls e) (hle : ls <:+: ls') : Everywhere whole ls' e := by
  intro n hn
  obtain ⟨part, hpart, hlocated⟩ := h n hn
  exact ⟨part, hpart.trans hle, hlocated⟩

theorem Spread.mono (h : Spread whole ls es) (hle : ls <:+: ls') : Spread whole ls' es where
  nodes n hn := by
    obtain ⟨part, hpart, hlocated⟩ := h.nodes n hn
    exact ⟨part, hpart.trans hle, hlocated⟩
  inTurn := by
    obtain ⟨parts, hsub, hparts⟩ := h.inTurn
    exact ⟨parts, hsub.trans hle.sublist, hparts⟩

theorem Spread.nil : Spread whole ls [] where
  nodes := List.forall_mem_nil _
  inTurn := ⟨[], List.nil_sublist ls, .nil⟩

theorem Spread.cons (he : Everywhere whole ls e) (hes : Spread whole ls' es) :
    Spread whole (ls ++ ls') (e :: es) where
  nodes := by
    intro n hn
    rw [Expr.preorderAll, List.mem_append] at hn
    rcases hn with hn | hn
    · exact he.mono (List.prefix_append ls ls').isInfix n hn
    · exact (hes.mono (List.suffix_append ls ls').isInfix).nodes n hn
  inTurn := by
    obtain ⟨part, hpart, hlocated⟩ := he e e.self_mem_preorder
    obtain ⟨parts, hsub, hparts⟩ := hes.inTurn
    refine ⟨part :: parts, ?_, .cons ⟨hlocated.ne_nil, hlocated.span⟩ hparts⟩
    rw [List.flatten_cons]
    exact hpart.sublist.append hsub

theorem Spread.single (he : Everywhere whole ls e) : Spread whole ls [e] := by
  have hnil : Spread whole [] [] := .nil
  have h := Spread.cons he hnil
  rwa [List.append_nil] at h

/-- A node whose children are spread over its lexemes. -/
theorem Spread.everywhere (h : Spread whole ls e.children) (hne : ls ≠ [])
    (hspan : e.span = extent ls)
    (hagain : ∀ k p, whole ⟨ls.map (Lexeme.shift k), p, 0⟩
      = .ok (e.shift k, ⟨[], endOf p (ls.map (Lexeme.shift k)), 0⟩)) : Everywhere whole ls e := by
  intro n hn
  rw [Expr.preorder_eq, List.mem_cons] at hn
  rcases hn with rfl | hn
  · exact ⟨ls, List.infix_refl ls, hne, hspan, hagain, h.inTurn⟩
  · exact h.nodes n hn

end

/-- **What a step does**: it takes lexemes, at least one, and locates all nodes over them. -/
structure Run (whole step : Step Expr) (c : Cursor) (ls : List Lexeme) (e : Expr) (c' : Cursor) :
    Prop where
  past : c.Past ls c'
  ne_nil : ls ≠ []
  takes : Takes step ls c'.token? e
  nodes : Everywhere whole ls e

/-- What a parser of operands does. -/
def Locates (whole : Step Expr) (below : Nat → Step Expr) : Prop :=
  ∀ least c e c', below least c = .ok (e, c') → ∃ ls, Run whole (below least) c ls e c'

section

variable {whole : Step Expr} {below : Nat → Step Expr}

/-- What is taken from the lexemes alone. -/
theorem Takes.alone {step : Step Expr} {ls : List Lexeme} {next : Option Token} {e : Expr}
    (h : Takes step ls next e) (k p : Nat) :
    step ⟨ls.map (Lexeme.shift k), p, 0⟩
      = .ok (e.shift k, ⟨[], endOf p (ls.map (Lexeme.shift k)), 0⟩) := by
  have halone := h k p [] shows_nil
  rwa [List.append_nil] at halone

/-! ## Lists -/

section

variable {c c' : Cursor} {e : Expr} {es : List Expr}

/-- Without a comma there are no further elements. -/
theorem others_stop (hcomma : c.sees .comma = false) (trailing : Bool) (m : Nat) :
    others below trailing m c = .ok ([], c) := by
  cases m with
  | zero => rfl
  | succ m => exact others_eq_ok.2 (.stop hcomma)

variable (hbelow : Locates whole below)

include hbelow

/-- Further elements. A comma in front of the closing parenthesis is taken only where that
parenthesis follows, so here the next token must be there. -/
theorem run_others {trailing : Bool} {m : Nat} (hm : c.ahead.length ≤ m)
    (h : others below trailing m c = .ok (es, c')) :
    ∃ ls, c.Past ls c' ∧ Spread whole ls es ∧
      ∀ k p rest m', ls.length ≤ m' → rest.head?.map Lexeme.token = c'.token? →
        others below trailing m' ⟨ls.map (Lexeme.shift k) ++ rest, p, 0⟩
          = .ok (Expr.shiftAll k es, ⟨rest, endOf p (ls.map (Lexeme.shift k)), 0⟩) := by
  have hnone : ∀ {c : Cursor}, c.sees .comma = false → ∀ k p rest m',
      rest.head?.map Lexeme.token = c.token? → others below trailing m'
        ⟨([] : List Lexeme).map (Lexeme.shift k) ++ rest, p, 0⟩ = .ok ([], ⟨rest, p, 0⟩) :=
    fun hcomma k p rest m' hrest => others_stop ((sees_eq_of_head hrest).trans hcomma) trailing m'
  induction m generalizing c es with
  | zero =>
    have hcomma : c.sees .comma = false := by
      rw [Cursor.sees, Cursor.token?, List.length_eq_zero_iff.1 (Nat.le_zero.1 hm)]
      rfl
    cases h
    exact ⟨[], .nil _, .nil, fun k p rest m' _ => hnone hcomma k p rest m'⟩
  | succ m ih =>
    cases others_eq_ok.1 h with
    | stop hcomma => exact ⟨[], .nil _, .nil, fun k p rest m' _ => hnone hcomma k p rest m'⟩
    | last hcomma htrailing hclose =>
      obtain ⟨l, hl, hpast⟩ := Cursor.Past.exists_of_sees hcomma
      refine ⟨[l], hpast, .nil, fun k p rest m' hm' hrest => ?_⟩
      obtain ⟨m', rfl⟩ : ∃ i, m' = i + 1 := Nat.exists_eq_add_one.2 hm'
      refine others_eq_ok.2 (.last (sees_shift hl k) htrailing ?_)
      exact (sees_eq_of_head hrest).trans hclose
    | @more e es c₁ _ hcomma hopen he hes =>
      obtain ⟨l, hl, hpast⟩ := Cursor.Past.exists_of_sees hcomma
      obtain ⟨ls, hls⟩ := hbelow _ _ _ _ he
      have hlength := hpast.length_le
      have hlength' := hls.past.length_le
      rw [List.length_singleton] at hlength
      obtain ⟨ls', hpast', hspread, htakes⟩ := ih (by omega) hes
      refine ⟨l :: (ls ++ ls'), hpast.trans (hls.past.trans hpast'),
        (Spread.cons hls.nodes hspread).mono (List.suffix_cons l _).isInfix, ?_⟩
      intro k p rest m' hm' hrest
      rw [List.length_cons, List.length_append] at hm'
      obtain ⟨m', rfl⟩ : ∃ i, m' = i + 1 := ⟨m' - 1, by omega⟩
      have hthen := hpast'.head_eq hrest k
      rw [List.map_cons, List.map_append, List.cons_append, List.append_assoc, endOf_cons,
        endOf_append]
      refine others_eq_ok.2 (.more (sees_shift hl k) ?_ (hls.takes k _ _ fun _ => hthen)
        (htakes k _ rest m' (by omega) hrest))
      rw [← hopen]
      exact congrArg _ (sees_eq_of_head (hls.past.head_eq hthen k))

/-- The elements of a list and the parenthesis behind it. -/
theorem run_elements {trailing : Bool} {c₁ c₂ : Cursor} (he : below 0 c = .ok (e, c₁))
    (hes : others below trailing c₁.ahead.length c₁ = .ok (es, c₂))
    (hclose : expect .rparen c₂ = .ok c') :
    ∃ ls, c.Past ls c' ∧ ls ≠ [] ∧ Spread whole ls (e :: es) ∧
      ∀ k p rest, ∃ c₁' c₂',
        (∀ s, (⟨ls.map (Lexeme.shift k) ++ rest, p, 0⟩ : Cursor).sees s = c.sees s) ∧
        (∀ s, c₁'.sees s = c₁.sees s) ∧
        below 0 ⟨ls.map (Lexeme.shift k) ++ rest, p, 0⟩ = .ok (e.shift k, c₁') ∧
        others below trailing c₁'.ahead.length c₁' = .ok (Expr.shiftAll k es, c₂') ∧
        expect .rparen c₂' = .ok ⟨rest, endOf p (ls.map (Lexeme.shift k)), 0⟩ := by
  obtain ⟨ls, hls⟩ := hbelow _ _ _ _ he
  obtain ⟨ls', hpast', hspread, htakes⟩ := run_others hbelow (Nat.le_refl _) hes
  obtain ⟨r, hr, hpast''⟩ := Cursor.Past.exists_of_expect hclose
  refine ⟨ls ++ (ls' ++ [r]), hls.past.trans (hpast'.trans hpast''), ?_, ?_, fun k p rest => ?_⟩
  · exact List.append_ne_nil_of_left_ne_nil hls.ne_nil _
  · exact Spread.cons hls.nodes (hspread.mono (List.prefix_append ls' [r]).isInfix)
  · have hafter := hpast''.head_cons k rest
    have hthen := hpast'.head_eq hafter k
    rw [List.map_append, List.map_append, List.map_singleton, List.append_assoc, List.append_assoc,
      List.singleton_append, endOf_append, endOf_append]
    refine ⟨_, _, fun s => sees_eq_of_head (hls.past.head_eq hthen k), fun s => ?_,
      hls.takes k p _ fun _ => hthen, htakes k _ _ _ ?_ hafter, expect_shift hr k⟩
    · exact sees_eq_of_head hthen
    · rw [List.length_append, List.length_map]
      exact Nat.le_add_right _ _

/-- The arguments of a call, whatever is next behind the closing parenthesis. -/
theorem run_arguments (h : arguments below c = .ok (es, c')) :
    ∃ ls, c.Past ls c' ∧ Spread whole ls es ∧
      (∀ k p rest, (⟨ls.map (Lexeme.shift k) ++ rest, p, 0⟩ : Cursor).sees .lparen) ∧
      ∀ k p rest, arguments below ⟨ls.map (Lexeme.shift k) ++ rest, p, 0⟩
        = .ok (Expr.shiftAll k es, ⟨rest, endOf p (ls.map (Lexeme.shift k)), 0⟩) := by
  cases arguments_eq_ok.1 h with
  | empty hopen hclose =>
    obtain ⟨l, hl, hpast⟩ := Cursor.Past.exists_of_expect hopen
    obtain ⟨r, hr, hpast'⟩ := Cursor.Past.exists_of_sees hclose
    exact ⟨[l, r], hpast.trans hpast', .nil, fun k p rest => sees_shift hl k, fun k p rest =>
      arguments_eq_ok.2 (.empty (expect_shift hl k) (sees_shift hr k))⟩
  | cons hopen hsome he hes hclose =>
    obtain ⟨l, hl, hpast⟩ := Cursor.Past.exists_of_expect hopen
    obtain ⟨ls, hpast', -, hspread, hagain⟩ := run_elements hbelow he hes hclose
    refine ⟨l :: ls, hpast.trans hpast', hspread.mono (List.suffix_cons l ls).isInfix,
      fun k p rest => sees_shift hl k, fun k p rest => ?_⟩
    obtain ⟨c₁', c₂', hsees, -, he', hes', hclose'⟩ := hagain k (l.span.stop - k) rest
    exact arguments_eq_ok.2
      (.cons (expect_shift hl k) ((hsees _).trans hsome) he' hes' hclose')

end

/-! ## Operands -/

section

variable {c c' : Cursor} {e : Expr}

/-- What is read as an operand up to the end of the lexemes is read as an expression. -/
theorem chain_of_operand (h : operand below c = .ok (e, c')) (hend : c'.ahead = []) (least : Nat) :
    chain below least c = .ok (e, c') := by
  refine (bind_of_ok h).trans (climb_stop fun b hb => ?_)
  rw [Cursor.binding?, Cursor.token?, hend] at hb
  cases hb

variable (hbelow : Locates whole below)
  (hwhole : ∀ c x, chain below 0 c = .ok x → whole c = .ok x)

include hwhole in
/-- A node that is read as an operand, with its children spread over the lexemes. -/
theorem everywhere_of_operand {ls : List Lexeme} {next : Option Token}
    (h : Takes (operand below) ls next e) (hpast : c.Past ls c') (hne : ls ≠ [])
    (hspan : e.span = c'.spanFrom c.here.start) (hspread : Spread whole ls e.children) :
    Everywhere whole ls e := by
  refine hspread.everywhere hne (hspan.trans (hpast.spanFrom_eq hne)) fun k p => ?_
  exact hwhole _ _ (chain_of_operand (h.alone k p) rfl 0)

include hbelow hwhole

/-- What stands in parentheses, whatever is next behind the closing one. A group stands over the
lexemes inside. -/
theorem run_parenthesized (h : parenthesized below c = .ok (e, c')) :
    ∃ ls, c.Past ls c' ∧ ls ≠ [] ∧ Everywhere whole ls e ∧
      ∀ next, Takes (parenthesized below) ls next e := by
  cases parenthesized_eq_ok.1 h with
  | @group _ _ c₂ _ hopen hsome he hcomma hclose =>
    obtain ⟨l, hl, hpast⟩ := Cursor.Past.exists_of_expect hopen
    obtain ⟨ls, hls⟩ := hbelow _ _ _ _ he
    obtain ⟨r, hr, hpast'⟩ := Cursor.Past.exists_of_expect hclose
    have hinside : ls <:+: l :: (ls ++ [r]) := ⟨[l], [r], rfl⟩
    refine ⟨l :: (ls ++ [r]), hpast.trans (hls.past.trans hpast'), List.cons_ne_nil _ _,
      hls.nodes.mono hinside, fun next k p rest _ => ?_⟩
    have hafter := hpast'.head_cons k rest
    have hthen := hls.past.head_eq hafter k
    rw [List.map_cons, List.map_append, List.map_singleton, List.cons_append, List.append_assoc,
      List.singleton_append, endOf_cons, endOf_append]
    exact parenthesized_eq_ok.2 (.group (expect_shift hl k) ((sees_eq_of_head hthen).trans hsome)
      (hls.takes k _ _ fun _ => hafter) ((sees_eq_of_head hafter).trans hcomma)
      (expect_shift hr k))
  | @tuple x xs _ _ _ _ hopen hsome he hcomma hes hclose =>
    obtain ⟨l, hl, hpast⟩ := Cursor.Past.exists_of_expect hopen
    obtain ⟨ls, hpast', -, hspread, hagain⟩ := run_elements hbelow he hes hclose
    have hpast := hpast.trans hpast'
    have hne : [l] ++ ls ≠ [] := List.cons_ne_nil l ls
    have htakes : ∀ next, Takes (parenthesized below) ([l] ++ ls) next
        (.tuple (c'.spanFrom c.here.start) (x :: xs)) := by
      intro next k p rest _
      obtain ⟨c₁', c₂', hsees, hsees', he', hes', hclose'⟩ := hagain k (l.span.stop - k) rest
      rw [Expr.shift, hpast.spanFrom_shift hne k p rest]
      exact parenthesized_eq_ok.2 (.tuple (expect_shift hl k) ((hsees _).trans hsome) he'
        ((hsees' _).trans hcomma) hes' hclose')
    have hoperand : Takes (operand below) ([l] ++ ls) none
        (.tuple (c'.spanFrom c.here.start) (x :: xs)) :=
      fun k p rest hrest => operand_of_primary (primary_of_parenthesized (htakes none k p rest hrest)
        (not_sees_of_shows hrest nofun))
    refine ⟨[l] ++ ls, hpast, hne, ?_, htakes⟩
    exact everywhere_of_operand hwhole hoperand hpast hne rfl
      (hspread.mono (List.suffix_append [l] ls).isInfix)

omit hbelow in
/-- A fresh node that is read without a sign. -/
theorem run_node {ls : List Lexeme} (hpast : c.Past ls c') (hne : ls ≠ [])
    (hspan : e.span = c'.spanFrom c.here.start) (hspread : Spread whole ls e.children)
    (htakes : Takes (primary below) ls c'.token? e) :
    Run whole (primary below) c ls e c' := by
  have hoperand : Takes (operand below) ls c'.token? e :=
    fun k p rest hrest => operand_of_primary (htakes k p rest hrest)
  exact ⟨hpast, hne, htakes, everywhere_of_operand hwhole hoperand hpast hne hspan hspread⟩

/-- **An operand without a sign.** -/
theorem run_primary (h : primary below c = .ok (e, c')) :
    ∃ ls, Run whole (primary below) c ls e c' := by
  cases primary_eq_ok.1 h with
  | number htoken hv hnext =>
    obtain ⟨l, hl, hpast⟩ := Cursor.Past.exists_advance htoken
    have hne : [l] ≠ [] := List.cons_ne_nil l []
    refine ⟨[l], run_node hwhole hpast hne rfl .nil fun k p rest hrest => ?_⟩
    rw [Expr.shift, hpast.spanFrom_shift hne k p rest]
    exact primary_eq_ok.2 (.number (congrArg some hl) hv
      (not_sees_of_shows hrest (token?_ne_of_not_sees hnext)))
  | ident htoken hnext =>
    obtain ⟨l, hl, hpast⟩ := Cursor.Past.exists_advance htoken
    have hne : [l] ≠ [] := List.cons_ne_nil l []
    refine ⟨[l], run_node hwhole hpast hne rfl .nil fun k p rest hrest => ?_⟩
    rw [Expr.shift, hpast.spanFrom_shift hne k p rest]
    exact primary_eq_ok.2 (.ident (congrArg some hl)
      (not_sees_of_shows hrest (token?_ne_of_not_sees hnext)))
  | call htoken hopen hargs =>
    obtain ⟨l, hl, hpast⟩ := Cursor.Past.exists_advance htoken
    obtain ⟨ls, hpast', hspread, hsees, hagain⟩ := run_arguments hbelow hargs
    have hpast := hpast.trans hpast'
    have hne : [l] ++ ls ≠ [] := List.cons_ne_nil l ls
    refine ⟨[l] ++ ls, run_node hwhole hpast hne rfl
      (hspread.mono (List.suffix_append [l] ls).isInfix) fun k p rest _ => ?_⟩
    rw [Expr.shift, hpast.spanFrom_shift hne k p rest]
    exact primary_eq_ok.2 (.call (congrArg some hl) (hsees k _ rest) (hagain k _ rest))
  | parens htoken he hnext =>
    obtain ⟨ls, hpast, hne, hnodes, htakes⟩ := run_parenthesized hbelow hwhole he
    refine ⟨ls, hpast, hne, fun k p rest hrest => ?_, hnodes⟩
    exact primary_of_parenthesized (htakes _ k p rest hrest)
      (not_sees_of_shows hrest (token?_ne_of_not_sees hnext))

/-- **An operand.** -/
theorem run_operand (h : operand below c = .ok (e, c')) :
    ∃ ls, Run whole (operand below) c ls e c' := by
  cases operand_eq_ok.1 h with
  | @signed op x _ hsign hx =>
    obtain ⟨s, hs, -⟩ := Cursor.sign?_eq_some.1 hsign
    obtain ⟨l, -, hpast⟩ := Cursor.Past.exists_advance (c.token?_eq.trans hs)
    obtain ⟨ls, hls⟩ := hbelow _ _ _ _ hx
    have hpast := hpast.trans hls.past
    have hne : [l] ++ ls ≠ [] := List.cons_ne_nil l ls
    have htakes : Takes (operand below) ([l] ++ ls) c'.token?
        (.unary (c'.spanFrom c.here.start) op x) := by
      intro k p rest hrest
      rw [Expr.shift, hpast.spanFrom_shift hne k p rest]
      exact operand_eq_ok.2 (.signed ((sign?_eq_of_head (hpast.head_cons k _)).trans hsign)
        (hls.takes k _ rest hrest))
    refine ⟨[l] ++ ls, hpast, hne, htakes, everywhere_of_operand hwhole htakes hpast hne rfl ?_⟩
    exact (Spread.single hls.nodes).mono (List.suffix_append [l] ls).isInfix
  | primary _ he =>
    obtain ⟨ls, hls⟩ := run_primary hbelow hwhole he
    exact ⟨ls, hls.past, hls.ne_nil,
      fun k p rest hrest => operand_of_primary (hls.takes k p rest hrest), hls.nodes⟩

end

/-! ## The loop over operators -/

/-- The loop over operators has `left` in hand, which it has made of certain lexemes, wherever they
stand and whatever lesser power it goes down to. -/
def Gathers (below : Nat → Step Expr) (least : Nat) (ls : List Lexeme) (next : Option Token)
    (left : Expr) : Prop :=
  ∀ k p rest least', least' ≤ least → Shows next rest →
    ∃ m, rest.length ≤ m ∧ chain below least' ⟨ls.map (Lexeme.shift k) ++ rest, p, 0⟩
      = climb below ((extent ls).start - k) least' m (left.shift k)
          ⟨rest, endOf p (ls.map (Lexeme.shift k)), 0⟩

section

variable {ls ls' : List Lexeme} {next : Option Token} {left right : Expr} {least : Nat}
  {c c₀ c₁ c' : Cursor} {e : Expr}

theorem here_shift (hne : ls ≠ []) (k p : Nat) (rest : List Lexeme) :
    (⟨ls.map (Lexeme.shift k) ++ rest, p, 0⟩ : Cursor).here.start = (extent ls).start - k := by
  cases ls with
  | nil => exact absurd rfl hne
  | cons l ls => rfl

/-- The first operand. -/
theorem Takes.gathers (h : Takes (operand below) ls next left) (hne : ls ≠ [])
    (least : Nat) : Gathers below least ls next left := by
  intro k p rest least' _ hrest
  refine ⟨rest.length, Nat.le_refl _, (bind_of_ok (h k p rest hrest)).trans ?_⟩
  rw [here_shift hne]

theorem extent_append_start (hne : ls ≠ []) (ls' : List Lexeme) :
    (extent (ls ++ ls')).start = (extent ls).start := by
  cases ls with
  | nil => exact absurd rfl hne
  | cons l ls => rfl

/-- **One more operator** and its right operand. -/
theorem Gathers.binary {b : Binding} (h : Gathers below least ls c.token? left)
    (hpast : c₀.Past ls c) (hne : ls ≠ []) (hb : c.binding? = some b) (hleast : least ≤ b.power)
    (hright : Run whole (below b.right) c.advance ls' right c₁) :
    ∃ l, c.Past [l] c.advance ∧ Gathers below least (ls ++ ([l] ++ ls')) c₁.token?
      (.binary (c₁.spanFrom c₀.here.start) b.op left right) := by
  obtain ⟨s, hs, -⟩ := Cursor.binding?_eq_some.1 hb
  obtain ⟨l, -, hop⟩ := Cursor.Past.exists_advance (c.token?_eq.trans hs)
  refine ⟨l, hop, fun k p rest least' hle hrest => ?_⟩
  have hmore := hop.trans hright.past
  obtain ⟨m, hm, hchain⟩ := h k p _ least' hle (hmore.shows hrest k)
  rw [List.length_append, List.length_map, List.length_append, List.length_singleton] at hm
  obtain ⟨m, rfl⟩ : ∃ i, m = i + 1 := ⟨m - 1, by omega⟩
  have hfull : ls ++ ([l] ++ ls') ≠ [] := List.append_ne_nil_of_left_ne_nil hne _
  have hspan := (hpast.trans hmore).spanFrom_shift hfull k p rest
  have hstart := extent_append_start hne ([l] ++ ls')
  rw [here_shift hfull, hstart] at hspan
  have hb' : (⟨([l] ++ ls').map (Lexeme.shift k) ++ rest,
      endOf p (ls.map (Lexeme.shift k)), 0⟩ : Cursor).binding? = some b :=
    (binding?_eq_of_head (hmore.head_cons k _)).trans hb
  refine ⟨m, by omega, ?_⟩
  rw [List.map_append, List.append_assoc, hchain,
    climb_step hb' (Nat.le_trans hle hleast) (hright.takes k _ rest hrest), hstart, Expr.shift,
    hspan, List.map_append, endOf_append]
  rfl

/-- **The loop stops** in front of an operator that binds less tightly, and at the end of the
lexemes in front of any. -/
theorem Gathers.run (h : Gathers below least ls c.token? left) (hpast : c₀.Past ls c)
    (hne : ls ≠ []) (hnodes : Everywhere whole ls left)
    (hstop : ∀ b, c.binding? = some b → b.power < least) :
    Run whole (chain below least) c₀ ls left c := by
  refine ⟨hpast, hne, fun k p rest hrest => ?_, hnodes⟩
  obtain ⟨m, -, hchain⟩ := h k p rest least (Nat.le_refl _) hrest
  refine hchain.trans (climb_stop fun b hb => hstop b ?_)
  cases rest with
  | nil => cases hb
  | cons l rest => exact (binding?_eq_of_head (hrest (List.cons_ne_nil l rest))).symm.trans hb

theorem Gathers.again (h : Gathers below least ls next left) (k p : Nat) :
    chain below 0 ⟨ls.map (Lexeme.shift k), p, 0⟩
      = .ok (left.shift k, ⟨[], endOf p (ls.map (Lexeme.shift k)), 0⟩) := by
  obtain ⟨m, -, hchain⟩ := h k p [] 0 (Nat.zero_le _) shows_nil
  rw [List.append_nil] at hchain
  exact hchain.trans (climb_stop nofun)

variable (hbelow : Locates whole below)
  (hwhole : ∀ c x, chain below 0 c = .ok x → whole c = .ok x)

include hbelow hwhole

/-- **The loop over operators.** Each left operand is a node over the lexemes up to there. -/
theorem run_climb {m : Nat} (hgathers : Gathers below least ls c.token? left)
    (hpast : c₀.Past ls c) (hne : ls ≠ []) (hnodes : Everywhere whole ls left)
    (hm : c.ahead.length ≤ m)
    (h : climb below c₀.here.start least m left c = .ok (e, c')) :
    ∃ ls', Run whole (chain below least) c₀ ls' e c' := by
  induction m generalizing ls left c with
  | zero =>
    cases h
    refine ⟨ls, hgathers.run hpast hne hnodes fun b hb => ?_⟩
    rw [Cursor.binding?, Cursor.token?, List.length_eq_zero_iff.1 (Nat.le_zero.1 hm)] at hb
    cases hb
  | succ m ih =>
    cases climb_eq_ok.1 h with
    | stop hstop => exact ⟨ls, hgathers.run hpast hne hnodes hstop⟩
    | more hb hleast hright hrest =>
      obtain ⟨ls', hls'⟩ := hbelow _ _ _ _ hright
      obtain ⟨l, hop, hbinary⟩ := hgathers.binary hpast hne hb hleast hls'
      have hmore := hop.trans hls'.past
      have hfull : ls ++ ([l] ++ ls') ≠ [] := List.append_ne_nil_of_left_ne_nil hne _
      have hlength := hmore.length_le
      rw [List.length_append, List.length_singleton] at hlength
      refine ih hbinary (hpast.trans hmore) hfull ?_ (by omega) hrest
      have hchildren := Spread.cons hnodes
        ((Spread.single hls'.nodes).mono (List.suffix_append [l] ls').isInfix)
      exact hchildren.everywhere hfull ((hpast.trans hmore).spanFrom_eq hfull)
        fun k p => hwhole _ _ (hbinary.again k p)

theorem locates_chain : Locates whole (chain below) := by
  intro least c e c' h
  obtain ⟨⟨left, c₁⟩, hleft, h⟩ := bind_eq_ok h
  obtain ⟨ls, hls⟩ := run_operand hbelow hwhole hleft
  exact run_climb hbelow hwhole (hls.takes.gathers hls.ne_nil least) hls.past hls.ne_nil hls.nodes
    (Nat.le_refl _) h

end

end

/-- **What the parser returns is located**, at every level. -/
theorem locates_levelled {limit levels : Nat} (hle : levels ≤ limit) :
    Locates (levelled limit limit 0) (levelled limit levels) := by
  induction levels with
  | zero =>
    intro least c e c' h
    cases h
  | succ levels ih =>
    refine locates_chain (ih (by omega)) fun c x hx => ?_
    -- a node of a deeper level is read with all levels as well
    rcases cut_levelled hle 0 c with hsame | ⟨span, hcut⟩
    · exact hsame.symm.trans hx
    · rw [levelled, hx] at hcut
      cases hcut

/-! ## Spans -/

theorem exists_part {es : List Expr} {parts : List (List Lexeme)}
    (h : List.Forall₂ (fun e part => part ≠ [] ∧ e.span = extent part) es parts) :
    ∀ e ∈ es, ∃ part ∈ parts, part ≠ [] ∧ e.span = extent part := by
  induction h with
  | nil => exact List.forall_mem_nil _
  | @cons e part es parts he _ ih =>
    refine List.forall_mem_cons.2 ⟨⟨part, List.mem_cons_self, he⟩, fun x hx => ?_⟩
    obtain ⟨part', hpart', heq⟩ := ih x hx
    exact ⟨part', List.mem_cons_of_mem _ hpart', heq⟩

namespace InTurn

variable {es : List Expr} {ls : List Lexeme}

/-- The spans lie inside what the lexemes cover. -/
theorem spans_inside (h : InTurn ls es) (horder : InOrder ls) :
    ∀ e ∈ es, (extent ls).start ≤ e.span.start ∧ e.span.start < e.span.stop ∧
      e.span.stop ≤ (extent ls).stop := by
  intro e he
  obtain ⟨parts, hsub, hparts⟩ := h
  obtain ⟨part, hpart, hne, hspan⟩ := exists_part hparts e he
  have hpart := (List.sublist_flatten_of_mem hpart).trans hsub
  obtain ⟨hstart, hstop⟩ := horder.extent_subset hpart hne
  rw [hspan]
  exact ⟨hstart, (horder.sublist hpart).extent_nonempty hne, hstop⟩

/-- Each span ends before the next one starts. -/
theorem spans_apart (h : InTurn ls es) (horder : InOrder ls) :
    es.Pairwise fun e e' => e.span.stop ≤ e'.span.start := by
  obtain ⟨parts, hsub, hparts⟩ := h
  induction hparts with
  | nil => exact .nil
  | @cons e part es parts he hes ih =>
    rw [List.flatten_cons] at hsub
    refine List.pairwise_cons.2 ⟨fun x hx => ?_, ih ((List.sublist_append_right _ _).trans hsub)⟩
    obtain ⟨part', hpart', hne', hspan'⟩ := exists_part hes x hx
    have hboth : (part ++ part').Sublist ls :=
      ((List.Sublist.refl part).append (List.sublist_flatten_of_mem hpart')).trans hsub
    rw [he.2, hspan']
    exact (horder.sublist hboth).extent_stop_le he.1 hne'

end InTurn

end Parser

namespace Expr

/-- **Spans point at the text of their node.** The text under the span of a node is parsed under
the same limit, as that node, moved to the start of the text. And the spans of its children lie
inside its own, none is empty, and each ends before the next one starts. -/
theorem parse_snippet {limit : Nat} {source : String} {e : Expr} (h : parse limit source = .ok e) :
    ∀ n ∈ e.preorder, parse limit (n.span.snippet source) = .ok (n.shift n.span.start) ∧
      (∀ x ∈ n.children, n.span.start ≤ x.span.start ∧ x.span.start < x.span.stop ∧
        x.span.stop ≤ n.span.stop) ∧
      n.children.Pairwise fun x y => x.span.stop ≤ y.span.start := by
  intro n hn
  rw [parse] at h
  split at h
  · cases h
  rename_i ls hls
  obtain ⟨c, hexpr, -⟩ := ofLexemes_eq_ok.1 h
  obtain ⟨read, hread⟩ := Parser.locates_levelled (Nat.le_refl limit) _ _ _ _ hexpr
  obtain ⟨part, ⟨front, back, hpart⟩, hlocated⟩ := hread.nodes n hn
  have hplace : ls = front ++ (part ++ (back ++ c.ahead)) := by
    rw [show ls = read ++ c.ahead from hread.past.ahead, ← hpart]
    simp
  rw [hplace] at hls
  have horder : InOrder part := (inOrder_of_lexemes hls).sublist
    ((List.sublist_append_left part _).trans (List.sublist_append_right front _))
  have hchildren := hlocated.children
  rw [hlocated.span]
  refine ⟨?_, hchildren.spans_inside horder, hchildren.spans_apart horder⟩
  rw [parse, lexemes_snippet hlocated.ne_nil hls]
  exact ofLexemes_eq_ok.2 ⟨_, hlocated.again _ 0, rfl⟩

/-- A call, a group, a sign and a power. -/
def grouped : String := "f(x, (a + b)) * -c ** d"

/-- The product starts where the call does, the sum is inside its parentheses, and the power is
what the sign stands in front of. -/
theorem parse_snippet_grouped : ∃ e, parse 4 grouped = .ok e ∧
    (e.preorder.map fun n => n.span.snippet grouped)
      = ["f(x, (a + b)) * -c ** d", "f(x, (a + b))", "x", "a + b", "a", "b", "-c ** d", "c ** d",
        "c", "d"] ∧
    ∀ n ∈ e.preorder, parse 4 (n.span.snippet grouped) = .ok (n.shift n.span.start) ∧
      (∀ x ∈ n.children, n.span.start ≤ x.span.start ∧ x.span.start < x.span.stop ∧
        x.span.stop ≤ n.span.stop) ∧
      n.children.Pairwise fun x y => x.span.stop ≤ y.span.start := by
  have hsnippets : ((parse 4 grouped).toOption.map fun e =>
      e.preorder.map fun n => n.span.snippet grouped)
        = some ["f(x, (a + b)) * -c ** d", "f(x, (a + b))", "x", "a + b", "a", "b", "-c ** d",
          "c ** d", "c", "d"] := by
    decide +kernel
  cases h : parse 4 grouped with
  | error err =>
    rw [h] at hsnippets
    cases hsnippets
  | ok e =>
    rw [h] at hsnippets
    exact ⟨e, rfl, Option.some.inj hsnippets, parse_snippet h⟩

end Expr

end NodeFormula
