import Mathlib.Data.List.Forall2
import NodeFormula.Proofs.Formula.Ends
import NodeFormula.Proofs.Formula.Stages
import NodeFormula.Proofs.Text.Groups
/-!
# NodeFormula — what exponents are written as

`Powered` relates a text to the same text with its superscripts written as powers: each run
of superscripts raises a base in front of it, which gets a parenthesis and may have powers
in it. A base is a name, a number or a group with balanced parentheses (`IsBase`), and the
search for it from the end of the text stops at a place where the text before and the base are
powered each on its own (`Powered.split_base`). So a segment keeps the relation
(`Powered.step`) and all of them do (`Powered.run`). `writeExponents_powers` also says when there is
nothing to raise.
-/

namespace NodeFormula

variable {algebraic bracketed : Bool} {c : Char}
  {cs text written done base rest group segment : List Char} {depth opened : Nat}

/-! ## Groups from the end of a text -/

theorem splitGroup?_close (depth : Nat) (cs : List Char) : splitGroup? depth (')' :: cs) =
    (splitGroup? (depth + 1) cs).map fun x => (')' :: x.1, x.2) := by
  rw [splitGroup?]

/-- **The search counts the groups** of a character that it passes over. -/
theorem splitGroup?_cons (h : openGroups depth [c] = some opened) (cs : List Char) :
    splitGroup? (opened + 1) (c :: cs) =
      (splitGroup? (depth + 1) cs).map fun x => (c :: x.1, x.2) := by
  by_cases hclose : c = ')'
  · subst hclose
    cases depth with
    | zero => cases h
    | succ depth =>
      cases h
      exact splitGroup?_close _ cs
  · by_cases hopen : c = '('
    · subst hopen
      cases h
      rw [splitGroup?]
    · rw [openGroups_cons hopen hclose] at h
      cases h
      rw [splitGroup?]
      · exact hclose
      · exact fun _ => hopen
      · exact fun _ => hopen
      · exact fun _ _ => hopen

/-- **The search ends** in the parenthesis that opens the group, or goes on behind the character. -/
theorem splitGroup?_cons_eq_some (h : splitGroup? (opened + 1) (c :: cs) = some (group, rest)) :
    (opened = 0 ∧ c = '(' ∧ group = ['('] ∧ rest = cs) ∨ ∃ depth group',
      openGroups depth [c] = some opened ∧ splitGroup? (depth + 1) cs = some (group', rest) ∧
        group = c :: group' := by
  by_cases hfirst : opened = 0 ∧ c = '('
  · obtain ⟨rfl, rfl⟩ := hfirst
    cases h
    exact Or.inl ⟨rfl, rfl, rfl, rfl⟩
  · obtain ⟨depth, hdepth⟩ := exists_openGroups_single hfirst
    rw [splitGroup?_cons hdepth] at h
    obtain ⟨⟨group', rest'⟩, hsplit, heq⟩ := Option.map_eq_some_iff.1 h
    cases heq
    exact Or.inr ⟨depth, group', hdepth, hsplit, rfl⟩

/-- It counts the groups of a text that it passes over. -/
theorem splitGroup?_reverse (h : openGroups depth cs = some opened) (rest : List Char) :
    splitGroup? (opened + 1) (cs.reverse ++ rest) =
      (splitGroup? (depth + 1) rest).map fun x => (cs.reverse ++ x.1, x.2) := by
  induction cs generalizing depth rest with
  | nil =>
    cases h
    simp
  | cons c cs ih =>
    obtain ⟨middle, hc, h⟩ := Option.bind_eq_some_iff.1 ((openGroups_append depth [c] cs).symm.trans h)
    rw [List.reverse_cons, List.append_assoc, List.singleton_append, ih h, splitGroup?_cons hc]
    simp [Function.comp_def]

/-- What the search has found: a parenthesis, and text in which all but the groups that were
open is balanced. -/
theorem splitGroup?_eq_some (h : splitGroup? (depth + 1) done = some (group, rest)) :
    ∃ inner, group.reverse = '(' :: inner ∧ openGroups 0 inner = some depth := by
  induction done generalizing depth group with
  | nil => cases h
  | cons c done ih =>
    rcases splitGroup?_cons_eq_some h with ⟨rfl, rfl, rfl, rfl⟩ | ⟨opened, group', hc, hsplit, rfl⟩
    · exact ⟨[], rfl, rfl⟩
    · obtain ⟨inner, hgroup, hopened⟩ := ih hsplit
      refine ⟨inner ++ [c], by rw [List.reverse_cons, hgroup]; rfl, ?_⟩
      rw [openGroups_append, hopened]
      exact hc

/-- **A group at the end of a text is found** if and only if there is one. -/
theorem splitGroup?_balanced (h : Balanced cs) (rest : List Char) :
    splitGroup? 0 (')' :: (cs.reverse ++ '(' :: rest)) = some (')' :: cs.reverse ++ ['('], rest) := by
  rw [splitGroup?_close, splitGroup?_reverse h]
  simp [splitGroup?]

theorem exists_balanced_of_splitGroup? (h : splitGroup? 0 (')' :: cs) = some (group, rest)) :
    ∃ inner, Balanced inner ∧ group.reverse = '(' :: inner ++ [')'] := by
  rw [splitGroup?_close] at h
  obtain ⟨⟨group', rest'⟩, hsplit, heq⟩ := Option.map_eq_some_iff.1 h
  cases heq
  obtain ⟨inner, hgroup, hopened⟩ := splitGroup?_eq_some hsplit
  exact ⟨inner, hopened, by rw [List.reverse_cons, hgroup]⟩

/-! ## Powers -/

/-- A base and an exponent as a power. A base may get parentheses of its own. -/
def powerText (bracketed : Bool) (base digits : List Char) : List Char :=
  (if bracketed then '(' :: '(' :: base ++ [')'] else '(' :: base) ++ '*' :: '*' :: digits ++ [')']

/-- **What an exponent raises**: a name, a number, or a group with perhaps the name of a
function in front of it. Where names have several letters, a name or number gets parentheses
of its own. -/
structure IsBase (algebraic : Bool) (base : List Char) (bracketed : Bool) : Prop where
  ne_nil : base ≠ []
  balanced : Balanced base
  shape : (∀ c ∈ base, isOperandPart c) ∨ ∃ name inner, base = name ++ '(' :: inner ++ [')'] ∧
    (name = [] ∨ Catalogue.isKnown (String.ofList name)) ∧ Balanced inner
  bracketed_iff : bracketed ↔ algebraic = false ∧ ∀ c ∈ base, isOperandPart c

/-- **A text, and the text with its superscripts written as powers.** -/
inductive Powered (algebraic : Bool) : List Char → List Char → Prop
  | nil : Powered algebraic [] []
  /-- All but superscripts stays as it is. -/
  | char {text written : List Char} {c : Char} :
      Powered algebraic text written → isSuperscript c = false →
      Powered algebraic (text ++ [c]) (written ++ [c])
  /-- A run of superscripts raises the base in front of it. -/
  | power {text written raised base exponent digits : List Char} {bracketed : Bool} :
      Powered algebraic text written → Powered algebraic raised base →
      (∀ c ∈ raised.getLast?, isSuperscript c = false) → IsBase algebraic base bracketed →
      exponent ≠ [] → exponent.Forall₂ (fun s d => superscript? s = some d) digits →
      Powered algebraic (text ++ raised ++ exponent) (written ++ powerText bracketed base digits)

/-- No exponent can stand behind a text: it is empty, or ends in a character that is neither
part of an operand nor closes a group. -/
def Baseless (written : List Char) : Prop :=
  written = [] ∨ (∃ front c, written = front ++ [c] ∧ isOperandPart c = false ∧ c ≠ ')') ∨
    (∃ front, written = front ++ [')']) ∧
      ¬ ∃ front inner, written = front ++ '(' :: inner ++ [')'] ∧ Balanced inner

theorem ne_paren_of_isOperandPart (h : isOperandPart c) : c ≠ '(' ∧ c ≠ ')' := by
  constructor <;> (rintro rfl; exact absurd h (by decide))

/-- Superscripts stand for digits. -/
theorem isDigit_of_forall₂ {exponent digits : List Char}
    (h : exponent.Forall₂ (fun s d => superscript? s = some d) digits) :
    (∀ s ∈ exponent, isSuperscript s) ∧ ∀ d ∈ digits, d.isDigit := by
  induction h with
  | nil => exact ⟨List.forall_mem_nil _, List.forall_mem_nil _⟩
  | cons hd _ ih =>
    refine ⟨List.forall_mem_cons.2 ⟨?_, ih.1⟩, List.forall_mem_cons.2 ⟨superscript?_isDigit hd, ih.2⟩⟩
    rw [isSuperscript, hd]
    rfl

theorem forall₂_filterMap {exponent : List Char} (h : ∀ s ∈ exponent, isSuperscript s) :
    exponent.Forall₂ (fun s d => superscript? s = some d) (exponent.filterMap superscript?) := by
  induction exponent with
  | nil => exact .nil
  | cons s exponent ih =>
    rw [List.forall_mem_cons] at h
    obtain ⟨d, hd⟩ := Option.isSome_iff_exists.1 h.1
    rw [List.filterMap_cons, hd]
    exact .cons hd (ih h.2)

theorem ne_paren_of_isSuperscript (h : isSuperscript c) : c ≠ '(' ∧ c ≠ ')' := by
  constructor <;> (rintro rfl; exact absurd h (by decide))

theorem balanced_powerText {digits : List Char} (hbase : Balanced base)
    (hdigits : ∀ d ∈ digits, d.isDigit) (bracketed : Bool) :
    Balanced (powerText bracketed base digits) := by
  have hexponent : Balanced ('*' :: '*' :: digits) := by
    refine .of_forall ?_
    simp only [List.forall_mem_cons]
    refine ⟨by decide, by decide, fun d hd => ?_⟩
    constructor <;> (rintro rfl; exact absurd (hdigits _ hd) (by decide))
  have hbase' : Balanced (if bracketed then '(' :: base ++ [')'] else base) := by
    split_ifs
    · exact hbase.group
    · exact hbase
  have htext : powerText bracketed base digits =
      '(' :: ((if bracketed then '(' :: base ++ [')'] else base) ++ '*' :: '*' :: digits) ++ [')'] := by
    cases bracketed <;> simp [powerText]
  rw [htext]
  exact (hbase'.append hexponent).group

namespace Powered

theorem append {text' written' : List Char} (h : Powered algebraic text written)
    (h' : Powered algebraic text' written') :
    Powered algebraic (text ++ text') (written ++ written') := by
  induction h' with
  | nil => rwa [List.append_nil, List.append_nil]
  | char _ hc ih =>
    rw [← List.append_assoc, ← List.append_assoc]
    exact ih.char hc
  | power _ hbase hlast hisBase hne hdigits ih =>
    rw [← List.append_assoc, ← List.append_assoc, ← List.append_assoc]
    exact ih.power hbase hlast hisBase hne hdigits

/-- **Powers open and close the groups that the text does.** -/
theorem openGroups (h : Powered algebraic text written) (depth : Nat) :
    openGroups depth written = openGroups depth text := by
  induction h generalizing depth with
  | nil => rfl
  | char _ _ ih => rw [openGroups_append, openGroups_append, ih]
  | @power text written raised base exponent digits bracketed _ _ _ hisBase _ hdigits ih ihbase =>
    obtain ⟨hexponent, hdigits⟩ := isDigit_of_forall₂ hdigits
    have hraised : Balanced (raised ++ exponent) :=
      Balanced.append ((ihbase 0).symm.trans hisBase.balanced)
        (.of_forall fun d hd => ne_paren_of_isSuperscript (hexponent d hd))
    have hpower := balanced_powerText hisBase.balanced hdigits bracketed
    rw [List.append_assoc, openGroups_append, openGroups_append depth text, ih]
    simp only [hpower.openGroups, hraised.openGroups]

/-! ### Where a base starts -/

theorem eq_nil (h : Powered algebraic text written) (htext : text = []) : written = [] := by
  cases h with
  | nil => rfl
  | char => simp at htext
  | power _ _ _ _ hexponent => simp [hexponent] at htext

/-- The text behind the last character is powered on its own, unless the last character is a
superscript. -/
theorem exists_char (h : Powered algebraic text written)
    (hlast : ∀ c ∈ text.getLast?, isSuperscript c = false) (hne : text ≠ []) :
    ∃ front front' c, text = front ++ [c] ∧ written = front' ++ [c] ∧
      Powered algebraic front front' ∧ isSuperscript c = false := by
  cases h with
  | nil => exact absurd rfl hne
  | @char front front' c hfront hc => exact ⟨front, front', c, rfl, rfl, hfront, hc⟩
  | @power _ _ _ _ exponent _ _ _ _ _ _ hexponent hdigits =>
    -- the text would end in a superscript
    obtain ⟨c, hc⟩ := Option.ne_none_iff_exists'.1 (mt List.getLast?_eq_none_iff.1 hexponent)
    have hfalse := hlast c (by rw [List.getLast?_append, hc]; rfl)
    rw [(isDigit_of_forall₂ hdigits).1 c (List.mem_of_getLast? hc)] at hfalse
    cases hfalse

/-- **Text of operands was there before.** -/
theorem split_word (h : Powered algebraic text written) (heq : written = rest ++ base)
    (hbase : ∀ c ∈ base, isOperandPart c) :
    ∃ front raised, text = front ++ raised ∧ Powered algebraic front rest ∧
      Powered algebraic raised base := by
  induction h generalizing base with
  | nil =>
    obtain ⟨rfl, rfl⟩ := List.append_eq_nil_iff.1 heq.symm
    exact ⟨[], [], rfl, .nil, .nil⟩
  | @char text written c h hc ih =>
    rcases List.eq_nil_or_concat base with rfl | ⟨base, d, rfl⟩
    · rw [List.append_nil] at heq
      exact ⟨text ++ [c], [], (List.append_nil _).symm, heq ▸ h.char hc, .nil⟩
    · rw [List.concat_eq_append] at heq hbase ⊢
      rw [← List.append_assoc] at heq
      obtain ⟨hwritten, hcd⟩ := List.append_inj' heq rfl
      cases hcd
      obtain ⟨front, raised, rfl, hfront, hraised⟩ :=
        ih hwritten fun d hd => hbase d (List.mem_append_left _ hd)
      exact ⟨front, raised ++ [c], List.append_assoc _ _ _, hfront, hraised.char hc⟩
  | @power text written raised base' exponent digits bracketed h hraised hlast hisBase hne hdigits ih =>
    rcases List.eq_nil_or_concat base with rfl | ⟨base, d, rfl⟩
    · rw [List.append_nil] at heq
      exact ⟨_, [], (List.append_nil _).symm, heq ▸ h.power hraised hlast hisBase hne hdigits, .nil⟩
    · -- a power ends in a parenthesis
      rw [List.concat_eq_append] at heq hbase
      rw [powerText, ← List.append_assoc, ← List.append_assoc rest] at heq
      obtain ⟨-, hd⟩ := List.append_inj' heq rfl
      cases hd
      exact absurd (hbase ')' (by simp)) (by decide)

/-- **The groups that are found were groups before.** -/
theorem split_group (h : Powered algebraic text written)
    (hsplit : splitGroup? (depth + 1) written.reverse = some (group, rest)) :
    ∃ front raised, text = front ++ raised ∧ Powered algebraic front rest.reverse ∧
      Powered algebraic raised group.reverse := by
  induction h generalizing depth group with
  | nil => simp [splitGroup?] at hsplit
  | @char text written c h hc ih =>
    rw [List.reverse_append, List.reverse_singleton, List.singleton_append] at hsplit
    rcases splitGroup?_cons_eq_some hsplit with ⟨-, rfl, rfl, rfl⟩ | ⟨_, group', -, hsplit', rfl⟩
    · -- the group starts here
      rw [List.reverse_reverse]
      exact ⟨text, ['('], rfl, h, Powered.nil.char hc⟩
    · obtain ⟨front, raised, rfl, hfront, hraised⟩ := ih hsplit'
      refine ⟨front, raised ++ [c], List.append_assoc _ _ _, hfront, ?_⟩
      rw [List.reverse_cons]
      exact hraised.char hc
  | @power text written raised base exponent digits bracketed h hraised hlast hisBase hne hdigits ih =>
    have hpower := balanced_powerText hisBase.balanced (isDigit_of_forall₂ hdigits).2 bracketed
    rw [List.reverse_append, splitGroup?_reverse (hpower.openGroups depth)] at hsplit
    obtain ⟨⟨group', rest'⟩, hsplit', heq⟩ := Option.map_eq_some_iff.1 hsplit
    cases heq
    obtain ⟨front, behind, rfl, hfront, hbehind⟩ := ih hsplit'
    refine ⟨front, behind ++ raised ++ exponent, by simp, hfront, ?_⟩
    rw [List.reverse_append, List.reverse_reverse]
    exact hbehind.power hraised hlast hisBase hne hdigits

end Powered

/-- **What the search for a base finds**: the end of an operand, or a group and the name in
front of it. -/
theorem splitBase?_cases (h : splitBase? algebraic done = some (base, rest)) :
    base ≠ [] ∧ (∀ c ∈ base, isOperandPart c) ∧ base ++ rest = done ∨
      ∃ cs group name, done = ')' :: cs ∧ base = group ++ name.reverse ∧
        splitGroup? 0 done = some (group, name.reverse ++ rest) ∧ (∀ c ∈ name, isOperandPart c) ∧
        (name = [] ∨ Catalogue.isKnown (String.ofList name)) := by
  have happend := splitBase?_append h
  cases done with
  | nil => cases h
  | cons c cs =>
    rw [splitBase?] at h
    split_ifs at h with hclose hpart _ hnumeral
    · subst hclose
      obtain ⟨⟨group, before⟩, hsplit, heq⟩ := Option.map_eq_some_iff.1 h
      dsimp only at heq
      generalize hrun : (before.takeWhile isNamePart).reverse = run at heq
      cases hname : functionSuffix? algebraic run with
      | none =>
        rw [hname] at heq
        cases heq
        exact Or.inr ⟨cs, group, [], rfl, rfl, hsplit, List.forall_mem_nil _, Or.inl rfl⟩
      | some name =>
        rw [hname] at heq
        cases heq
        obtain ⟨hend, hknown⟩ := functionSuffix?_suffix hname
        rw [← hrun] at hend
        have hprefix : name.reverse <+: before := by
          have hprefix := List.reverse_prefix.2 hend
          rw [List.reverse_reverse] at hprefix
          exact hprefix.trans (List.takeWhile_prefix _)
        have htake : before.take name.length = name.reverse := by
          rw [← List.length_reverse]
          exact (List.prefix_iff_eq_take.1 hprefix).symm
        refine Or.inr ⟨cs, group, name, rfl, congrArg _ htake, ?_, fun c hc => ?_, Or.inr hknown⟩
        · rw [hsplit, ← htake, Option.getD_some, List.take_append_drop]
        · have hc' := List.mem_takeWhile_imp (List.mem_reverse.1 (hend.subset hc))
          rw [isOperandPart, isWordPart, hc']
          rfl
    · cases h
      exact Or.inl ⟨by simp_all, fun d hd => List.mem_takeWhile_imp hd, happend⟩
    · cases h
      refine Or.inl ⟨by simp_all, fun d hd => ?_, happend⟩
      rw [isOperandPart, isWordPart_of_isNumeralPart (List.mem_takeWhile_imp hd)]
      rfl
    · cases h
      exact Or.inl ⟨List.cons_ne_nil _ _, by simpa using hpart, happend⟩

/-- **There is no base** exactly behind a text that cannot have an exponent. -/
theorem splitBase?_eq_none_iff : splitBase? algebraic done = none ↔ Baseless done.reverse := by
  cases done with
  | nil => exact iff_of_true rfl (Or.inl rfl)
  | cons c cs =>
    rw [splitBase?, Baseless, List.reverse_cons]
    have hend : ∀ {front : List Char} {d : Char}, cs.reverse ++ [c] = front ++ [d] → c = d := by
      intro front d h
      exact List.singleton_inj.1 (List.append_inj_right' h rfl)
    split_ifs with hclose hpart _ hnumeral
    · subst hclose
      rw [Option.map_eq_none_iff]
      constructor
      · refine fun hnone => Or.inr (Or.inr ⟨⟨_, rfl⟩, ?_⟩)
        rintro ⟨front, inner, heq, hinner⟩
        have hcs : cs = inner.reverse ++ '(' :: front.reverse := by
          have := congrArg List.reverse (List.append_inj_left' heq rfl)
          simpa using this
        rw [hcs, splitGroup?_balanced hinner] at hnone
        cases hnone
      · rintro (h | ⟨front, d, heq, -, hne⟩ | ⟨-, h⟩)
        · simp at h
        · exact absurd (hend heq).symm hne
        · rw [Option.eq_none_iff_forall_not_mem]
          rintro ⟨group, before⟩ hsplit
          obtain ⟨inner, hinner, hgroup⟩ := exists_balanced_of_splitGroup? hsplit
          have happend := congrArg List.reverse (splitGroup?_append hsplit).1
          rw [List.reverse_append, hgroup, List.reverse_cons] at happend
          exact h ⟨before.reverse, inner, by rw [← happend, List.append_assoc], hinner⟩
    · simp only [Bool.not_eq_true'] at hpart
      exact iff_of_true rfl (Or.inr (Or.inl ⟨_, c, rfl, hpart, hclose⟩))
    all_goals
      refine iff_of_false (by simp) ?_
      rintro (h | ⟨front, d, heq, hd, -⟩ | ⟨⟨front, heq⟩, -⟩)
      · simp at h
      · rw [← hend heq] at hd
        rw [hd] at hpart
        exact hpart rfl
      · exact hclose (hend heq)

namespace Powered

/-- **The base of an exponent was there before**, apart from what stands in front of it. -/
theorem split_base (h : Powered algebraic text done.reverse)
    (hlast : ∀ c ∈ text.getLast?, isSuperscript c = false)
    (hsplit : splitBase? algebraic done = some (base, rest)) :
    ∃ front raised, text = front ++ raised ∧ Powered algebraic front rest.reverse ∧
      Powered algebraic raised base.reverse ∧
      IsBase algebraic base.reverse (!(algebraic || base.head? == some ')')) := by
  rcases splitBase?_cases hsplit with ⟨hne, hparts, happend⟩ |
    ⟨cs, group, name, rfl, rfl, hgroup, hname, hknown⟩
  · have hparts' : ∀ c ∈ base.reverse, isOperandPart c := by simpa using hparts
    obtain ⟨front, raised, htext, hfront, hraised⟩ :=
      h.split_word (by rw [← happend, List.reverse_append]) hparts'
    have hhead : base.head? ≠ some ')' := fun hhead =>
      absurd (hparts ')' (List.mem_of_head? hhead)) (by decide)
    refine ⟨front, raised, htext, hfront, hraised, by simpa using hne,
      .of_forall fun c hc => ne_paren_of_isOperandPart (hparts' c hc), Or.inl hparts', ?_⟩
    simpa [beq_eq_false_iff_ne.2 hhead] using fun _ => hparts
  · obtain ⟨inner, hinner, hgroup'⟩ := exists_balanced_of_splitGroup? hgroup
    -- the text ends in the parenthesis that closes the group
    rw [List.reverse_cons] at h
    have hne : text ≠ [] := fun hnil => by simpa using h.eq_nil hnil
    obtain ⟨ahead, ahead', d, rfl, hwritten, hahead, hd⟩ := h.exists_char hlast hne
    obtain ⟨hcs, hd'⟩ := List.append_inj' hwritten rfl
    cases hd'
    rw [← hcs] at hahead
    rw [splitGroup?_close] at hgroup
    obtain ⟨⟨group', rest'⟩, hsplit', heq⟩ := Option.map_eq_some_iff.1 hgroup
    obtain ⟨rfl, rfl⟩ := Prod.mk.inj heq
    obtain ⟨before, raised, rfl, hbefore, hraised⟩ :=
      hahead.split_group (by rwa [List.reverse_reverse])
    rw [List.reverse_append, List.reverse_reverse] at hbefore
    obtain ⟨front, called, rfl, hfront, hcalled⟩ := hbefore.split_word rfl hname
    have hbase : (')' :: group' ++ name.reverse).reverse = name ++ '(' :: inner ++ [')'] := by
      rw [List.reverse_append, List.reverse_reverse, hgroup', List.append_assoc]
    refine ⟨front, called ++ (raised ++ [')']), by simp, hfront, ?_, ?_⟩
    · rw [List.reverse_append, List.reverse_reverse, List.reverse_cons]
      exact hcalled.append (hraised.char hd)
    · rw [hbase]
      refine ⟨by simp, ?_, Or.inr ⟨name, inner, rfl, hknown, hinner⟩, ?_⟩
      · rw [List.append_assoc]
        exact (Balanced.of_forall fun c hc => ne_paren_of_isOperandPart (hname c hc)).append
          hinner.group
      · refine iff_of_false (by simp) fun hparts => absurd (hparts.2 ')' (by simp)) (by decide)

/-! ### Segment by segment -/

theorem reverse_openPower (algebraic : Bool) (base rest digits : List Char) :
    (')' :: digits.reverse ++ ['*', '*'] ++ openPower algebraic base ++ rest).reverse = rest.reverse ++
      powerText (!(algebraic || base.head? == some ')')) base.reverse digits := by
  rw [openPower, powerText]
  cases algebraic || base.head? == some ')' <;> simp

/-- **A segment keeps the text and its powers.** Superscripts do not follow superscripts. -/
theorem step {next : List Char} (h : Powered algebraic text done.reverse)
    (hsegment : IsSegment isSuperscript segment)
    (hlast : isRun isSuperscript segment → ∀ c ∈ text.getLast?, isSuperscript c = false)
    (hnext : appendSegment algebraic done segment = .ok next) :
    Powered algebraic (text ++ segment) next.reverse := by
  cases hrun : isRun isSuperscript segment with
  | false =>
    obtain ⟨c, hc, rfl⟩ := hsegment.exists_of_not_isRun hrun
    rw [appendSegment, if_neg (by simp [hc])] at hnext
    cases hnext
    rw [List.reverse_append, List.reverse_reverse]
    exact h.char hc
  | true =>
    have hall := hsegment.all_of_isRun hrun
    obtain ⟨c, cs, rfl⟩ := List.exists_cons_of_ne_nil hsegment.ne_nil
    rw [appendSegment, if_pos (hall c List.mem_cons_self)] at hnext
    split at hnext
    · cases hnext
    · rename_i base rest hsplit
      cases hnext
      obtain ⟨front, raised, rfl, hfront, hraised, hisBase⟩ := h.split_base (hlast hrun) hsplit
      have hne : raised ≠ [] := fun hnil => hisBase.ne_nil (hraised.eq_nil hnil)
      rw [List.getLast?_append_of_ne_nil _ hne] at hlast
      rw [reverse_openPower]
      exact hfront.power hraised (hlast hrun) hisBase (List.cons_ne_nil _ _) (forall₂_filterMap hall)

/-- **All segments do.** -/
theorem run {ss : List (List Char)} {final : List Char} (h : Powered algebraic text done.reverse)
    (hcut : IsCut isSuperscript ss)
    (hlast : ∀ s ∈ ss.head?, isRun isSuperscript s → ∀ c ∈ text.getLast?, isSuperscript c = false)
    (hfinal : ss.foldlM (appendSegment algebraic) done = .ok final) :
    Powered algebraic (text ++ ss.flatten) final.reverse := by
  induction ss generalizing text done with
  | nil =>
    cases hfinal
    rwa [List.flatten_nil, List.append_nil]
  | cons s ss ih =>
    rw [List.foldlM_cons] at hfinal
    obtain ⟨next, hnext, hfinal⟩ := bind_eq_ok hfinal
    obtain ⟨hsegment, -, hss⟩ := IsCut.cons_iff.1 hcut
    rw [List.flatten_cons, ← List.append_assoc]
    exact ih (h.step hsegment (hlast s rfl) hnext) hss (hcut.getLast?_append_of_run text) hfinal

end Powered

/-- **What is written** has the powers of the text. -/
theorem powered_of_writeExponents (h : writeExponents algebraic text = .ok written) :
    Powered algebraic text written := by
  obtain ⟨final, hfinal, rfl⟩ := map_eq_ok h
  have hrun := Powered.run .nil (isCut_segments isSuperscript text) (by simp) hfinal
  rwa [List.nil_append, flatten_segments] at hrun

/-- **The segment at which a text has no base.** -/
theorem appendSegment_eq_error_iff {e : FormulaError} (hsegment : IsSegment isSuperscript segment) :
    appendSegment algebraic done segment = .error e ↔ ∃ c run, segment = c :: run ∧
      (∀ d ∈ c :: run, isSuperscript d) ∧ Baseless done.reverse ∧ e = .badSymbol c := by
  obtain ⟨c, cs, rfl⟩ := List.exists_cons_of_ne_nil hsegment.ne_nil
  rw [appendSegment]
  split_ifs with hc
  · have hall := hsegment.all_of_isRun hc
    split
    · rename_i hnone
      constructor
      · intro h
        cases h
        exact ⟨c, cs, rfl, hall, splitBase?_eq_none_iff.1 hnone, rfl⟩
      · rintro ⟨d, run, heq, -, -, rfl⟩
        cases heq
        rfl
    · rename_i hsome
      refine iff_of_false (by simp) ?_
      rintro ⟨-, -, -, -, hbaseless, -⟩
      rw [splitBase?_eq_none_iff.2 hbaseless] at hsome
      cases hsome
  · refine iff_of_false (by simp) ?_
    rintro ⟨d, run, heq, hall, -, -⟩
    cases heq
    exact hc (hall c List.mem_cons_self)

/-- **Exponents as powers.** What is written has the powers of the text and no superscripts, and
its parentheses are balanced exactly if those of the text are. Nothing is written exactly if some
run of superscripts stands behind a text that cannot have an exponent. -/
theorem writeExponents_powers (algebraic : Bool) (text : List Char) :
    (∀ written, writeExponents algebraic text = .ok written → Powered algebraic text written ∧
      (∀ c ∈ written, isSuperscript c = false) ∧ (Balanced written ↔ Balanced text)) ∧
    ∀ e, writeExponents algebraic text = .error e ↔ ∃ front c run back done,
      text = front ++ c :: run ++ back ∧ (∀ d ∈ c :: run, isSuperscript d) ∧
      (∀ d ∈ front.getLast?, isSuperscript d = false) ∧
      (∀ d ∈ back.head?, isSuperscript d = false) ∧
      writeExponents algebraic front = .ok done ∧ Baseless done ∧ e = .badSymbol c := by
  have hcut := isCut_segments isSuperscript text
  refine ⟨fun written h => ?_, fun e => ?_⟩
  · have hpowered := powered_of_writeExponents h
    have hmarks : ['(', ')', '*'].all isPlain := by decide
    refine ⟨hpowered, forall_mem_writeExponents (fun c hc => ?_) (fun c hc => ?_) (fun _ _ => id) h,
      ?_⟩
    · exact (not_special_of_isPlain (List.all_eq_true.1 hmarks c hc)).1
    · exact (not_special_of_isPlain (by simp [isPlain, isWordPart, isNamePart, Char.isAlphanum, hc])).1
    · rw [Balanced, Balanced, hpowered.openGroups]
  · rw [writeExponents, map_eq_error_iff, foldlM_eq_error_iff]
    constructor
    · rintro ⟨ss, s, ts, done, hsegments, hdone, herror⟩
      have hsegment := hcut.segment s (by rw [hsegments]; simp)
      obtain ⟨c, run, rfl, hall, hbaseless, rfl⟩ := (appendSegment_eq_error_iff hsegment).1 herror
      obtain ⟨front, back, rfl, rfl, rfl, hfront, hback⟩ :=
        (segments_eq_append_cons_iff (List.cons_ne_nil _ _) hall).1 hsegments
      refine ⟨front, c, run, back, _, rfl, hall, hfront, hback, ?_, hbaseless, rfl⟩
      rw [writeExponents, hdone]
      rfl
    · rintro ⟨front, c, run, back, written, rfl, hall, hfront, hback, hwritten, hbaseless, rfl⟩
      obtain ⟨done, hdone, rfl⟩ := map_eq_ok hwritten
      have hsegment : IsSegment isSuperscript (c :: run) := Or.inl ⟨List.cons_ne_nil _ _, hall⟩
      refine ⟨_, _, _, done, (segments_eq_append_cons_iff (List.cons_ne_nil _ _) hall).2
        ⟨front, back, rfl, rfl, rfl, hfront, hback⟩, hdone, ?_⟩
      exact (appendSegment_eq_error_iff hsegment).2 ⟨c, run, rfl, hall, hbaseless, rfl⟩

/-- An exponent of a call whose argument has an exponent, and one behind a parenthesis that closes
nothing. -/
theorem writeExponents_powers_nested :
    writeExponents true "2sin(x²)¹⁰".toList = .ok "2(sin((x**2))**10)".toList ∧
      Powered true "2sin(x²)¹⁰".toList "2(sin((x**2))**10)".toList ∧
      ∃ front c run back done, "a)²".toList = front ++ c :: run ++ back ∧
        writeExponents true front = .ok done ∧ Baseless done ∧
        FormulaError.badSymbol '²' = .badSymbol c := by
  have hwritten : writeExponents true "2sin(x²)¹⁰".toList = .ok "2(sin((x**2))**10)".toList := by
    decide +kernel
  obtain ⟨front, c, run, back, done, htext, -, -, -, hdone, hbaseless, herror⟩ :=
    ((writeExponents_powers true "a)²".toList).2 (.badSymbol '²')).1 (by decide +kernel)
  exact ⟨hwritten, ((writeExponents_powers true _).1 _ hwritten).1,
    front, c, run, back, done, htext, hdone, hbaseless, herror⟩

end NodeFormula
