import NodeFormula.Proofs.Expr.Sound
import NodeFormula.Proofs.Token.Parts
/-!
# NodeFormula — cursors over lexemes that have been moved

What the parser asks of a cursor depends on the token ahead and, for a span, on the lexemes
since: `Cursor.Past` names those between two cursors. The answers over the same lexemes, moved,
are the same ones, moved.
-/

namespace NodeFormula

namespace Expr

mutual

/-- A tree with all spans moved to the left. -/
def shift (k : Nat) : Expr → Expr
  | number s v t => number (s.shift k) v t
  | ident s n => ident (s.shift k) n
  | binary s op l r => binary (s.shift k) op (l.shift k) (r.shift k)
  | unary s op x => unary (s.shift k) op (x.shift k)
  | call s f args => call (s.shift k) f (shiftAll k args)
  | tuple s items => tuple (s.shift k) (shiftAll k items)

/-- A list of trees with all spans moved to the left. -/
def shiftAll (k : Nat) : List Expr → List Expr
  | [] => []
  | e :: es => e.shift k :: shiftAll k es

end

end Expr

namespace Parser

/-- Nothing is ahead, or a certain token. -/
def Shows (next : Option Token) (ls : List Lexeme) : Prop :=
  ls ≠ [] → ls.head?.map Lexeme.token = next

theorem shows_nil {next : Option Token} : Shows next [] := fun h => absurd rfl h

/-- From one cursor to another lie certain lexemes. -/
structure Cursor.Past (c : Cursor) (ls : List Lexeme) (c' : Cursor) : Prop where
  ahead : c.ahead = ls ++ c'.ahead
  behind : c'.behind = endOf c.behind ls

namespace Cursor.Past

variable {c c' c'' : Cursor} {ls ls' rest : List Lexeme}

theorem nil (c : Cursor) : c.Past [] c := ⟨rfl, rfl⟩

theorem trans (h : c.Past ls c') (h' : c'.Past ls' c'') : c.Past (ls ++ ls') c'' where
  ahead := by rw [h.ahead, h'.ahead, List.append_assoc]
  behind := by rw [h'.behind, h.behind, endOf_append]

theorem length_le (h : c.Past ls c') : ls.length + c'.ahead.length = c.ahead.length := by
  rw [h.ahead, List.length_append]

/-- Over a token. -/
theorem exists_advance {t : Token} (h : c.token? = some t) :
    ∃ l : Lexeme, l.token = t ∧ c.Past [l] c.advance := by
  obtain ⟨ahead, behind, depth⟩ := c
  cases ahead with
  | nil => cases h
  | cons l ls => exact ⟨l, Option.some.inj h, rfl, rfl⟩

theorem exists_of_sees {s : Symbol} (h : c.sees s) :
    ∃ l : Lexeme, l.token = .symbol s ∧ c.Past [l] c.advance :=
  exists_advance (beq_iff_eq.1 h)

theorem exists_of_expect {s : Symbol} (h : expect s c = .ok c') :
    ∃ l : Lexeme, l.token = .symbol s ∧ c.Past [l] c' := by
  obtain ⟨hsees, rfl⟩ := expect_eq_ok.1 h
  exact exists_of_sees hsees

/-- The lexemes are where the cursor was, so it shows the same token in front of them. -/
theorem shows (h : c.Past ls c') (hrest : Shows c'.token? rest) (k : Nat) :
    Shows c.token? (ls.map (Lexeme.shift k) ++ rest) := by
  intro hne
  rw [Cursor.token?, h.ahead]
  cases ls with
  | nil => exact hrest hne
  | cons l ls => rfl

theorem head_eq (h : c.Past ls c') (hrest : rest.head?.map Lexeme.token = c'.token?) (k : Nat) :
    (ls.map (Lexeme.shift k) ++ rest).head?.map Lexeme.token = c.token? := by
  rw [Cursor.token?, h.ahead]
  cases ls with
  | nil => exact hrest
  | cons l ls => rfl

theorem head_cons {l : Lexeme} (h : c.Past (l :: ls) c') (k : Nat) (rest : List Lexeme) :
    (l.shift k :: rest).head?.map Lexeme.token = c.token? := by
  rw [Cursor.token?, h.ahead]
  rfl

theorem spanFrom_eq (h : c.Past ls c') (hne : ls ≠ []) :
    c'.spanFrom c.here.start = extent ls := by
  rw [Cursor.spanFrom, Cursor.here, h.ahead, h.behind]
  cases ls with
  | nil => exact absurd rfl hne
  | cons l ls => rfl

end Cursor.Past

theorem extent_shift {ls : List Lexeme} (hne : ls ≠ []) (k : Nat) :
    extent (ls.map (Lexeme.shift k)) = (extent ls).shift k := by
  cases ls with
  | nil => exact absurd rfl hne
  | cons l ls =>
    have hend := endOf_shift k l.span.stop ls
    rw [List.map_cons, extent, extent, Span.shift, endOf_cons, endOf_cons, ← Nat.sub_max_sub_right,
      ← hend]
    rfl

/-- The span over lexemes that have been moved. -/
theorem Cursor.Past.spanFrom_shift {c c' : Cursor} {ls : List Lexeme} (h : c.Past ls c')
    (hne : ls ≠ []) (k p : Nat) (rest : List Lexeme) :
    (c'.spanFrom c.here.start).shift k
      = (⟨rest, endOf p (ls.map (Lexeme.shift k)), 0⟩ : Cursor).spanFrom
          (⟨ls.map (Lexeme.shift k) ++ rest, p, 0⟩ : Cursor).here.start := by
  rw [h.spanFrom_eq hne, ← extent_shift hne]
  exact (Cursor.Past.spanFrom_eq ⟨rfl, rfl⟩ (by simpa using hne)).symm

section

variable {next : Option Token} {l : Lexeme} {ls : List Lexeme} {s : Symbol} {p : Nat}

theorem not_sees_of_shows (h : Shows next ls) (hs : next ≠ some (.symbol s)) :
    (⟨ls, p, 0⟩ : Cursor).sees s = false := by
  refine Bool.eq_false_iff.2 fun hsees => hs ?_
  have htoken : ls.head?.map Lexeme.token = some (.symbol s) := beq_iff_eq.1 hsees
  have hne : ls ≠ [] := by
    rintro rfl
    cases htoken
  rw [← h hne, htoken]

theorem sees_eq_of_head {c : Cursor} (h : ls.head?.map Lexeme.token = c.token?) :
    (⟨ls, p, 0⟩ : Cursor).sees s = c.sees s := by
  rw [Cursor.sees, Cursor.sees, ← h]
  rfl

theorem sign?_eq_of_head {c : Cursor} (h : ls.head?.map Lexeme.token = c.token?) :
    (⟨ls, p, 0⟩ : Cursor).sign? = c.sign? := by
  rw [Cursor.sign?, Cursor.sign?, ← h]
  rfl

theorem binding?_eq_of_head {c : Cursor} (h : ls.head?.map Lexeme.token = c.token?) :
    (⟨ls, p, 0⟩ : Cursor).binding? = c.binding? := by
  rw [Cursor.binding?, Cursor.binding?, ← h]
  rfl

theorem token?_ne_of_not_sees {c : Cursor} (h : c.sees s = false) :
    c.token? ≠ some (.symbol s) :=
  fun htoken => Bool.eq_false_iff.1 h (beq_iff_eq.2 htoken)

theorem sees_shift (h : l.token = .symbol s) (k : Nat) :
    (⟨l.shift k :: ls, p, 0⟩ : Cursor).sees s = true := by
  rw [Cursor.sees, Cursor.token?, List.head?_cons, Option.map_some, Lexeme.token_shift, h,
    beq_self_eq_true]

theorem expect_shift (h : l.token = .symbol s) (k : Nat) :
    expect s ⟨l.shift k :: ls, p, 0⟩ = .ok ⟨ls, l.span.stop - k, 0⟩ :=
  expect_eq_ok.2 ⟨sees_shift h k, rfl⟩

end

end Parser

end NodeFormula
