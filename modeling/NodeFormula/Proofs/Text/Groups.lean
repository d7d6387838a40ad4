/-!
# NodeFormula — parentheses in balance

`openGroups` counts the groups that are open behind a text. A text is balanced if it opens
what it closes and closes what it opens, and then it makes no difference to the count of the
text around it (`Balanced.openGroups`).
-/

namespace NodeFormula

/-- How many groups are open behind a text, given how many are open before it. There is no
such number if the text closes a group that is not open. -/
def openGroups : Nat → List Char → Option Nat
  | depth, [] => some depth
  | depth, '(' :: cs => openGroups (depth + 1) cs
  | 0, ')' :: _ => none
  | depth + 1, ')' :: cs => openGroups depth cs
  | depth, _ :: cs => openGroups depth cs

/-- **The parentheses of a text are balanced.** -/
def Balanced (cs : List Char) : Prop := openGroups 0 cs = some 0

instance : DecidablePred Balanced := fun cs => inferInstanceAs (Decidable (openGroups 0 cs = some 0))

variable {a b cs : List Char} {depth opened : Nat} {c : Char}

/-- A character that is no parenthesis. -/
theorem openGroups_cons (hopen : c ≠ '(') (hclose : c ≠ ')') (depth : Nat) (cs : List Char) :
    openGroups depth (c :: cs) = openGroups depth cs := by
  rw [openGroups]
  · exact hopen
  · exact fun _ => hclose
  · exact fun _ _ => hclose

/-- Text without parentheses. -/
theorem openGroups_of_forall (h : ∀ c ∈ cs, c ≠ '(' ∧ c ≠ ')') (depth : Nat) :
    openGroups depth cs = some depth := by
  induction cs with
  | nil => rfl
  | cons c cs ih =>
    rw [List.forall_mem_cons] at h
    rw [openGroups_cons h.1.1 h.1.2, ih h.2]

theorem openGroups_append (depth : Nat) (a b : List Char) :
    openGroups depth (a ++ b) = (openGroups depth a).bind fun opened => openGroups opened b := by
  fun_induction openGroups depth a with
  | case1 depth => rfl
  | case2 depth cs ih => exact ih
  | case3 cs => rfl
  | case4 depth cs ih => exact ih
  | case5 depth c cs hopen hzero hsucc ih =>
    rw [List.cons_append, openGroups_cons hopen, ih]
    rintro rfl
    cases depth with
    | zero => exact hzero rfl rfl
    | succ depth => exact hsucc depth rfl rfl

/-- What is open behind a character was open before it, or the character opens a group. -/
theorem exists_openGroups_single (h : ¬ (opened = 0 ∧ c = '(')) :
    ∃ depth, openGroups depth [c] = some opened := by
  by_cases hopen : c = '('
  · subst hopen
    obtain ⟨depth, rfl⟩ := Nat.exists_eq_succ_of_ne_zero fun hzero => h ⟨hzero, rfl⟩
    exact ⟨depth, rfl⟩
  · by_cases hclose : c = ')'
    · subst hclose
      exact ⟨opened + 1, rfl⟩
    · exact ⟨opened, openGroups_cons hopen hclose opened []⟩

/-- Groups that are open around a text stay open. -/
theorem openGroups_add (h : openGroups depth cs = some opened) (around : Nat) :
    openGroups (depth + around) cs = some (opened + around) := by
  fun_induction openGroups depth cs with
  | case1 depth =>
    cases h
    rfl
  | case2 depth cs ih =>
    rw [openGroups, Nat.add_right_comm]
    exact ih h
  | case3 cs => cases h
  | case4 depth cs ih =>
    rw [Nat.succ_add, openGroups]
    exact ih h
  | case5 depth c cs hopen hzero hsucc ih =>
    rw [openGroups_cons hopen, ih h]
    rintro rfl
    cases depth with
    | zero => exact hzero rfl rfl
    | succ depth => exact hsucc depth rfl rfl

namespace Balanced

/-- **Balanced text opens and closes nothing** of the text around it. -/
theorem openGroups (h : Balanced cs) (depth : Nat) : openGroups depth cs = some depth := by
  have hadd := openGroups_add h depth
  rwa [Nat.zero_add] at hadd

theorem append (ha : Balanced a) (hb : Balanced b) : Balanced (a ++ b) := by
  rw [Balanced, openGroups_append, ha.openGroups, Option.bind_some, hb.openGroups]

theorem group (h : Balanced cs) : Balanced ('(' :: cs ++ [')']) := by
  rw [Balanced, List.cons_append, NodeFormula.openGroups, openGroups_append, h.openGroups]
  rfl

theorem of_forall (h : ∀ c ∈ cs, c ≠ '(' ∧ c ≠ ')') : Balanced cs := openGroups_of_forall h 0

end Balanced

end NodeFormula
