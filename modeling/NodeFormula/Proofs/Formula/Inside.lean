import NodeFormula.Proofs.Formula.Powers
/-!
# NodeFormula — groups keep what is in them

An exponent raises a base within the group that it stands in, so what is in a group is written
as it would be on its own (`foldlM_inside`). A group that is closed is never cut open again: what
follows may raise it, alone or with what is around it, and puts marks in front of it and behind it
(`foldlM_group`).
-/

namespace NodeFormula

variable {algebraic : Bool} {p : Char → Bool} {c : Char} {depth opened : Nat}
  {cs text done next base rest group inner segment ahead behind a b x y : List Char}
  {ss : List (List Char)}

theorem takeWhile_append_cons (hc : p c = false) (a b : List Char) :
    (a ++ c :: b).takeWhile p = a.takeWhile p := by
  induction a with
  | nil => rw [List.nil_append, List.takeWhile_cons, hc]; rfl
  | cons d a ih => rw [List.cons_append, List.takeWhile_cons, List.takeWhile_cons, ih]

theorem dropWhile_append_cons (hc : p c = false) (a b : List Char) :
    (a ++ c :: b).dropWhile p = a.dropWhile p ++ c :: b := by
  induction a with
  | nil => rw [List.nil_append, List.dropWhile_cons, hc]; rfl
  | cons d a ih =>
    rw [List.cons_append, List.dropWhile_cons, List.dropWhile_cons, ih]
    split <;> rfl

/-! ## Bases inside of a group -/

/-- A group that is found is found in more text, too. -/
theorem splitGroup?_append_right (h : splitGroup? (depth + 1) done = some (group, rest))
    (x : List Char) : splitGroup? (depth + 1) (done ++ x) = some (group, rest ++ x) := by
  induction done generalizing depth group with
  | nil => cases h
  | cons c done ih =>
    rcases splitGroup?_cons_eq_some h with ⟨rfl, rfl, rfl, rfl⟩ | ⟨opened, group', hc, hsplit, rfl⟩
    · rfl
    · rw [List.cons_append, splitGroup?_cons hc, ih hsplit]
      rfl

/-- A parenthesis that closes a group of a text has its group there. -/
theorem exists_splitGroup? (h : openGroups 0 cs = some opened) (hdepth : depth < opened) :
    ∃ x, splitGroup? (depth + 1) cs.reverse = some x := by
  induction cs using List.reverseRecOn generalizing depth opened with
  | nil =>
    cases h
    exact absurd hdepth (Nat.not_lt_zero _)
  | append_singleton cs c ih =>
    rw [openGroups_append] at h
    obtain ⟨before, hbefore, h⟩ := Option.bind_eq_some_iff.1 h
    rw [List.reverse_append, List.reverse_singleton, List.singleton_append]
    by_cases hfirst : depth = 0 ∧ c = '('
    · obtain ⟨rfl, rfl⟩ := hfirst
      exact ⟨_, rfl⟩
    · obtain ⟨around, haround⟩ := exists_openGroups_single hfirst
      have hlt : around < before := by
        -- more groups open before the character would be more behind it
        by_contra hle
        obtain ⟨more, rfl⟩ := Nat.exists_eq_add_of_le (Nat.not_lt.1 hle)
        rw [openGroups_add h, Option.some_inj] at haround
        omega
      obtain ⟨x, hx⟩ := ih hbefore hlt
      exact ⟨_, by rw [splitGroup?_cons haround, hx]; rfl⟩

/-- **The base of an exponent lies in the group that the exponent is in.** -/
theorem splitBase?_inside (h : openGroups 0 done.reverse = some opened) (outside : List Char) :
    splitBase? algebraic (done ++ '(' :: outside) =
      (splitBase? algebraic done).map fun x => (x.1, x.2 ++ '(' :: outside) := by
  cases done with
  | nil =>
    rfl
  | cons c cs =>
    rw [List.cons_append, splitBase?, splitBase?]
    split_ifs with hclose
    · subst hclose
      rw [List.reverse_cons, openGroups_append] at h
      obtain ⟨before, hbefore, h⟩ := Option.bind_eq_some_iff.1 h
      obtain ⟨⟨group, rest⟩, hsplit⟩ : ∃ x, splitGroup? 1 cs = some x := by
        cases before with
        | zero => cases h
        | succ before =>
          rw [← List.reverse_reverse cs]
          exact exists_splitGroup? hbefore before.succ_pos
      -- the name in front of the group stops at the parenthesis around it
      have hlen : ((functionSuffix? algebraic (rest.takeWhile isNamePart).reverse).getD []).length ≤
          rest.length := by
        cases hname : functionSuffix? algebraic (rest.takeWhile isNamePart).reverse with
        | none => exact Nat.zero_le _
        | some name =>
          refine (functionSuffix?_suffix hname).1.length_le.trans ?_
          rw [List.length_reverse]
          exact (List.takeWhile_prefix _).length_le
      rw [splitGroup?_close, splitGroup?_close, splitGroup?_append_right hsplit, hsplit]
      simp only [Option.map_some, takeWhile_append_cons (show isNamePart '(' = false by decide),
        List.take_append_of_le_length hlen, List.drop_append_of_le_length hlen]
    · rfl
    · rw [← List.cons_append, takeWhile_append_cons (by decide), dropWhile_append_cons (by decide)]
      rfl
    · rw [← List.cons_append, takeWhile_append_cons (by decide), dropWhile_append_cons (by decide)]
      rfl
    · rfl

theorem appendSegment_inside (h : openGroups 0 done.reverse = some opened) (outside : List Char) :
    appendSegment algebraic (done ++ '(' :: outside) segment =
      (appendSegment algebraic done segment).map (· ++ '(' :: outside) := by
  cases segment with
  | nil => rfl
  | cons c cs =>
    rw [appendSegment, appendSegment, splitBase?_inside h]
    split_ifs
    · cases splitBase? algebraic done with
      | none => rfl
      | some x => simp [Except.map]
    · simp [Except.map]

/-- **What is in a group is written as it is on its own.** -/
theorem foldlM_inside (h : Powered algebraic text done.reverse) (hcut : IsCut isSuperscript ss)
    (hlast : ∀ s ∈ ss.head?, isRun isSuperscript s → ∀ c ∈ text.getLast?, isSuperscript c = false)
    (hopen : openGroups 0 (text ++ ss.flatten) = some opened) (outside : List Char) :
    ss.foldlM (appendSegment algebraic) (done ++ '(' :: outside) =
      (ss.foldlM (appendSegment algebraic) done).map (· ++ '(' :: outside) := by
  induction ss generalizing text done with
  | nil => rfl
  | cons s ss ih =>
    obtain ⟨before, hbefore, -⟩ := Option.bind_eq_some_iff.1 ((openGroups_append _ _ _).symm.trans hopen)
    -- what is written so far opens the groups that the text does, and closes none around it
    rw [← h.openGroups] at hbefore
    rw [List.foldlM_cons, List.foldlM_cons, appendSegment_inside hbefore]
    cases hnext : appendSegment algebraic done s with
    | error e => rfl
    | ok next =>
      obtain ⟨hsegment, -, hss⟩ := IsCut.cons_iff.1 hcut
      rw [List.flatten_cons, ← List.append_assoc] at hopen
      exact ih (h.step hsegment (hlast s rfl) hnext) hss (hcut.getLast?_append_of_run text) hopen

/-! ## Groups that are closed -/

/-- Text without a character ends before it. -/
theorem exists_append_of_not_mem (h : x ++ y = b ++ c :: a) (hc : c ∉ x) :
    ∃ b', b = x ++ b' ∧ y = b' ++ c :: a := by
  rcases List.append_eq_append_iff.1 h with ⟨b', hb, hy⟩ | ⟨b', hx, hca⟩
  · exact ⟨b', hb, hy⟩
  · cases b' with
    | nil =>
      rw [List.append_nil] at hx
      exact ⟨[], by rw [hx, List.append_nil], hca.symm⟩
    | cons d b' =>
      cases hca
      exact absurd (hx ▸ List.mem_append_right _ List.mem_cons_self) hc

/-- The search ends in the first text, or goes on in the second. -/
theorem splitGroup?_append_cases
    (h : splitGroup? (depth + 1) (b ++ x) = some (group, rest)) :
    (∃ b', b = group ++ b' ∧ rest = b' ++ x) ∨
      ∃ depth' group', splitGroup? (depth' + 1) x = some (group', rest) ∧ group = b ++ group' := by
  induction b generalizing depth group with
  | nil => exact Or.inr ⟨depth, group, h, rfl⟩
  | cons c b ih =>
    rcases splitGroup?_cons_eq_some h with ⟨rfl, rfl, rfl, rfl⟩ | ⟨_, group', -, hsplit, rfl⟩
    · exact Or.inl ⟨b, rfl, rfl⟩
    · rcases ih hsplit with ⟨b', rfl, hrest⟩ | ⟨depth', group'', hsplit', rfl⟩
      · exact Or.inl ⟨b', rfl, hrest⟩
      · exact Or.inr ⟨depth', group'', hsplit', rfl⟩

/-- **A base has all of a group or nothing of it.** -/
theorem splitBase?_group (hinner : Balanced inner)
    (h : splitBase? algebraic (b ++ ')' :: inner.reverse ++ '(' :: a) = some (base, rest)) :
    (∃ b', b = base ++ b' ∧ rest = b' ++ ')' :: inner.reverse ++ '(' :: a) ∨
      ∃ a', base = b ++ ')' :: inner.reverse ++ '(' :: a' ∧ a = a' ++ rest := by
  rw [List.append_assoc, List.cons_append] at h
  rcases splitBase?_cases h with ⟨-, hparts, happend⟩ |
    ⟨cs, group, name, hdone, rfl, hsplit, hname, -⟩
  · -- an operand has no parenthesis
    obtain ⟨b', hb, hrest⟩ := exists_append_of_not_mem happend fun hmem =>
      absurd (hparts ')' hmem) (by decide)
    exact Or.inl ⟨b', hb, by rw [hrest, List.append_assoc]; rfl⟩
  · have hgroup : Balanced ('(' :: inner ++ [')']) := hinner.group
    cases b with
    | nil =>
      rw [List.nil_append, splitGroup?_balanced hinner] at hsplit
      obtain ⟨rfl, rfl⟩ := Prod.mk.inj (Option.some.inj hsplit)
      exact Or.inr ⟨name.reverse, by simp, rfl⟩
    | cons d b =>
      obtain ⟨rfl, rfl⟩ := List.cons.inj hdone
      rw [List.cons_append, splitGroup?_close] at hsplit
      obtain ⟨⟨group', rest'⟩, hsplit', heq⟩ := Option.map_eq_some_iff.1 hsplit
      obtain ⟨rfl, rfl⟩ := Prod.mk.inj heq
      rcases splitGroup?_append_cases hsplit' with ⟨b', rfl, hrest⟩ | ⟨depth, found, hfound, rfl⟩
      · obtain ⟨b'', rfl, hrest'⟩ := exists_append_of_not_mem hrest fun hmem =>
          absurd (hname ')' (List.mem_reverse.1 hmem)) (by decide)
        exact Or.inl ⟨b'', by simp, by rw [hrest', List.append_assoc]; rfl⟩
      · -- the search passes over the group
        have hpass := splitGroup?_reverse (hgroup.openGroups depth) a
        rw [List.reverse_append, List.reverse_singleton, List.reverse_cons,
          List.append_assoc, List.append_assoc] at hpass
        rw [show splitGroup? (depth + 1) (')' :: (inner.reverse ++ '(' :: a)) = _ from hpass] at hfound
        obtain ⟨⟨found', rest'⟩, hfound', heq⟩ := Option.map_eq_some_iff.1 hfound
        obtain ⟨rfl, rfl⟩ := Prod.mk.inj heq
        refine Or.inr ⟨found' ++ name.reverse, by simp, ?_⟩
        rw [List.append_assoc]
        exact (splitGroup?_append hfound').1.symm

/-- A segment leaves a group what it is. -/
theorem appendSegment_group (hinner : Balanced inner)
    (hdone : done.reverse = ahead ++ '(' :: inner ++ ')' :: behind)
    (hsegment : IsSegment isSuperscript segment)
    (h : appendSegment algebraic done segment = .ok next) : ∃ ahead' behind',
      next.reverse = ahead' ++ '(' :: inner ++ ')' :: behind' ∧ ahead.Sublist ahead' := by
  rcases appendSegment_cases hsegment h with ⟨-, heq⟩ |
    ⟨-, base, rest, front, back, hsplit, heq, -⟩
  · exact ⟨ahead, behind ++ segment, by rw [heq, hdone]; simp, List.Sublist.refl _⟩
  · have hdone' : done = behind.reverse ++ ')' :: inner.reverse ++ '(' :: ahead.reverse := by
      rw [← List.reverse_reverse done, hdone]
      simp
    rw [hdone'] at hsplit
    rcases splitBase?_group hinner hsplit with ⟨b', -, rfl⟩ | ⟨a', rfl, ha⟩
    · exact ⟨ahead, b'.reverse ++ (front ++ (base.reverse ++ back)), by rw [heq]; simp,
        List.Sublist.refl _⟩
    · refine ⟨rest.reverse ++ front ++ a'.reverse, behind ++ back, by rw [heq]; simp, ?_⟩
      rw [← List.reverse_reverse ahead, ha, List.reverse_append]
      exact (List.sublist_append_left _ _).append_right _

/-- **A group that is closed stays what it is**, and what stands in front of it only grows. -/
theorem foldlM_group (hinner : Balanced inner)
    (hdone : done.reverse = ahead ++ '(' :: inner ++ ')' :: behind)
    (hss : ∀ s ∈ ss, IsSegment isSuperscript s)
    (h : ss.foldlM (appendSegment algebraic) done = .ok next) : ∃ ahead' behind',
      next.reverse = ahead' ++ '(' :: inner ++ ')' :: behind' ∧ ahead.Sublist ahead' := by
  induction ss generalizing done ahead behind with
  | nil =>
    cases h
    exact ⟨ahead, behind, hdone, List.Sublist.refl _⟩
  | cons s ss ih =>
    rw [List.foldlM_cons] at h
    obtain ⟨middle, hmiddle, h⟩ := bind_eq_ok h
    rw [List.forall_mem_cons] at hss
    obtain ⟨ahead', behind', hmiddle', hahead⟩ := appendSegment_group hinner hdone hss.1 hmiddle
    obtain ⟨ahead'', behind'', hnext, hahead'⟩ := ih hmiddle' hss.2 h
    exact ⟨ahead'', behind'', hnext, hahead.trans hahead'⟩

end NodeFormula
