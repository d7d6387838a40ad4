import NodeFormula.Proofs.Formula.Pieces
/-!
# NodeFormula — what the stages of a canonical form leave

Words become symbols, exponents are written out and symbols become numbers. Each stage leaves
text of a smaller alphabet, so that what is read in the end has only words and marks
(`isPlain_spelled`). A stage finds nothing to do in text that has nothing of its kind: no
words for symbols (`expandWords_eq_self`), no superscript (`writeExponents_eq_self`), no symbol
(`spellConstants_eq_self`).

No stage makes a word for a symbol: where names have several letters, the runs of letters stay
what they are (`runs_writeExponents`, `runs_spellConstants`).
-/

namespace NodeFormula

variable {algebraic : Bool} {c : Char} {cs t done : List Char}

/-! ## The alphabet of canonical text -/

/-- A character of canonical text. -/
def isPlain (c : Char) : Bool := isWordPart c || marks.contains c

theorem toNat_of_isPlain (h : isPlain c) : 0x21 ≤ c.toNat ∧ c.toNat ≤ 0x7E := by
  have hmarks : marks.all fun c => 0x21 ≤ c.toNat ∧ c.toNat ≤ 0x7E := by decide
  simp only [isPlain, isWordPart, isNamePart, Char.isAlphanum] at h
  delta Char.isAlpha Char.isUpper Char.isLower at h
  simp only [Char.isDigit, Bool.or_eq_true, Bool.and_eq_true, decide_eq_true_eq, beq_iff_eq,
    List.contains_iff_mem, ge_iff_le, UInt32.le_iff_toNat_le] at h
  rcases h with (((h | h) | rfl) | rfl) | h
  · change (65 ≤ c.toNat ∧ c.toNat ≤ 90) ∨ (97 ≤ c.toNat ∧ c.toNat ≤ 122) at h
    omega
  · change 48 ≤ c.toNat ∧ c.toNat ≤ 57 at h
    omega
  · decide
  · decide
  · simpa using List.all_eq_true.1 hmarks c h

theorem not_isBlank_of_isPlain (h : isPlain c) : isBlank c = false := by
  obtain ⟨hlow, hhigh⟩ := toNat_of_isPlain h
  rw [isBlank]
  simp
  omega

theorem isAuthorized_of_isPlain (h : isPlain c) : isAuthorized c := by
  rw [isPlain, Bool.or_eq_true] at h
  rw [isAuthorized, isOperandPart]
  rcases h with h | h
  · rw [h]
    rfl
  · change _ || marks.contains c || _
    rw [h]
    simp

/-- Canonical text has neither superscripts nor symbols. -/
theorem not_special_of_isPlain (h : isPlain c) : isSuperscript c = false ∧ irrational? c = none := by
  obtain ⟨hlow, hhigh⟩ := toNat_of_isPlain h
  have hsuperscripts : ∀ x ∈ superscripts, 0x7E < x.1.toNat := by decide
  have hirrationals : ∀ k ∈ irrationals, 0x7E < k.symbol.toNat := by decide
  constructor
  · rw [isSuperscript, superscript?, Option.isSome_eq_false_iff, Option.isNone_iff_eq_none,
      List.lookup_eq_none_iff]
    intro x hx
    rw [bne_iff_ne]
    rintro rfl
    exact absurd (hsuperscripts x hx) (by omega)
  · rw [irrational?, List.find?_eq_none]
    intro k hk heq
    rw [beq_iff_eq] at heq
    have := hirrationals k hk
    rw [heq] at this
    omega

/-! ## Words for symbols -/

/-- Only a run of letters can be the word for a symbol. -/
theorem hasSymbolWord_iff : hasSymbolWord cs ↔
    ∃ w ∈ runs Char.isAlpha cs, (symbolWords.lookup (String.ofList w)).isSome := by
  have hletters : ∀ x ∈ symbolWords, isRun Char.isAlpha x.1.toList := by decide
  rw [hasSymbolWord, List.any_eq_true]
  constructor
  · rintro ⟨w, hw, hsome⟩
    obtain ⟨symbol, hsymbol⟩ := Option.isSome_iff_exists.1 hsome
    refine ⟨w, List.mem_filter.2 ⟨hw, ?_⟩, hsome⟩
    simpa using hletters _ (mem_of_lookup hsymbol)
  · rintro ⟨w, hw, hsome⟩
    exact ⟨w, (List.mem_filter.1 hw).1, hsome⟩

theorem hasSymbolWord_congr (h : runs Char.isAlpha cs = runs Char.isAlpha t) :
    hasSymbolWord cs = hasSymbolWord t := by
  rw [Bool.eq_iff_iff, hasSymbolWord_iff, hasSymbolWord_iff, h]

/-- **Text without words for symbols stays as it is.** -/
theorem expandWords_eq_self (h : hasSymbolWord cs = false) : expandWords cs = cs := by
  have hwords : (segments Char.isAlpha cs).map expandWord = segments Char.isAlpha cs := by
    rw [hasSymbolWord, List.any_eq_false] at h
    refine (List.map_congr_left fun w hw => ?_).trans (List.map_id _)
    rw [expandWord, Option.not_isSome_iff_eq_none.1 (h w hw)]
    rfl
  rw [expandWords, hwords, flatten_segments]

/-- **No word for a symbol is left.** -/
theorem hasSymbolWord_expandWords (cs : List Char) : hasSymbolWord (expandWords cs) = false := by
  have hsymbols : ∀ x ∈ symbolWords,
      x.2.isAlpha = false ∧ symbolWords.lookup (String.ofList [x.2]) = none := by decide
  have hword : ∀ {w : List Char}, IsSegment Char.isAlpha w →
      IsSegment Char.isAlpha (expandWord w) ∧
        (isRun Char.isAlpha (expandWord w) → isRun Char.isAlpha w) ∧
        symbolWords.lookup (String.ofList (expandWord w)) = none := by
    intro w hw
    rw [expandWord]
    split
    · rename_i symbol hsymbol
      obtain ⟨hletter, hnone⟩ := hsymbols _ (mem_of_lookup hsymbol)
      exact ⟨.single _ _, fun hrun => absurd (hrun.symm.trans hletter) (by decide), hnone⟩
    · rename_i hnone
      exact ⟨hw, id, hnone⟩
  have hcut := isCut_segments Char.isAlpha cs
  -- the expanded segments are those of the expanded text
  have hcut' : IsCut Char.isAlpha ((segments Char.isAlpha cs).map expandWord) := by
    refine ⟨fun s hs => ?_, ?_⟩
    · obtain ⟨w, hw, rfl⟩ := List.mem_map.1 hs
      exact (hword (hcut.segment w hw)).1
    · rw [List.isChain_map]
      refine List.IsChain.imp_of_mem_imp (fun s t hs ht hapart hruns => ?_) hcut.apart
      exact hapart ⟨(hword (hcut.segment s hs)).2.1 hruns.1, (hword (hcut.segment t ht)).2.1 hruns.2⟩
  rw [hasSymbolWord, expandWords, segments_flatten hcut', List.any_eq_false]
  intro s hs
  obtain ⟨w, hw, rfl⟩ := List.mem_map.1 hs
  rw [(hword (hcut.segment w hw)).2.2]
  exact Bool.false_ne_true

theorem isAuthorized_expandWords (h : ∀ c ∈ cs, isAuthorized c) :
    ∀ c ∈ expandWords cs, isAuthorized c := by
  have hsymbols : ∀ x ∈ symbolWords, isAuthorized x.2 := by decide
  intro c hc
  rw [expandWords] at hc
  obtain ⟨s, hs, hcs⟩ := List.mem_flatten.1 hc
  obtain ⟨w, hw, rfl⟩ := List.mem_map.1 hs
  rw [expandWord] at hcs
  split at hcs
  · rename_i symbol hsymbol
    rw [List.mem_singleton] at hcs
    rw [hcs]
    exact hsymbols (String.ofList w, symbol) (mem_of_lookup hsymbol)
  · exact forall_mem_segments h w hw c hcs

/-! ## Exponents -/

theorem splitGroup?_append {depth : Nat} {group rest : List Char}
    (h : splitGroup? depth done = some (group, rest)) :
    group ++ rest = done ∧ group.getLast? = some '(' := by
  fun_induction splitGroup? depth done generalizing group rest with
  | case1 => cases h
  | case3 => cases h
  | case4 cs =>
    cases h
    exact ⟨rfl, rfl⟩
  | case2 depth cs ih | case5 depth cs ih | case6 depth c cs _ _ _ _ ih =>
    obtain ⟨⟨group', rest'⟩, hsplit, heq⟩ := Option.map_eq_some_iff.1 h
    cases heq
    obtain ⟨happend, hlast⟩ := ih hsplit
    refine ⟨congrArg _ happend, ?_⟩
    rw [List.getLast?_cons, hlast]
    rfl

/-- The base of an exponent and what stands before it are the text. -/
theorem splitBase?_append {base rest : List Char}
    (h : splitBase? algebraic done = some (base, rest)) : base ++ rest = done := by
  cases done with
  | nil => cases h
  | cons c cs =>
    rw [splitBase?] at h
    split_ifs at h
    · obtain ⟨⟨group, before⟩, hsplit, heq⟩ := Option.map_eq_some_iff.1 h
      cases heq
      rw [List.append_assoc, List.take_append_drop]
      exact (splitGroup?_append hsplit).1
    · cases h
      exact List.takeWhile_append_dropWhile
    · cases h
      exact List.takeWhile_append_dropWhile
    · cases h
      rfl

theorem superscript?_isDigit {d : Char} (h : superscript? c = some d) : d.isDigit := by
  have hdigits : ∀ x ∈ superscripts, x.2.isDigit := by decide
  exact hdigits (c, d) (mem_of_lookup h)

/-- **What a segment becomes.** Superscripts put marks and digits around the base that they
raise. -/
theorem appendSegment_cases {segment : List Char} (hsegment : IsSegment isSuperscript segment)
    (h : appendSegment algebraic done segment = .ok t) :
    isRun isSuperscript segment = false ∧ t.reverse = done.reverse ++ segment ∨
      isRun isSuperscript segment ∧ ∃ base rest front back,
        splitBase? algebraic done = some (base, rest) ∧
        t.reverse = rest.reverse ++ (front ++ (base.reverse ++ back)) ∧ front ≠ [] ∧ back ≠ [] ∧
        ∀ c ∈ front ++ back, c ∈ ['(', ')', '*'] ∨ c.isDigit := by
  obtain ⟨c, cs, rfl⟩ := List.exists_cons_of_ne_nil hsegment.ne_nil
  rw [appendSegment] at h
  split at h
  · rename_i hc
    refine Or.inr ⟨hc, ?_⟩
    split at h
    · cases h
    · rename_i base rest hsplit
      cases h
      obtain ⟨front, close, hpower, hne, hmarks⟩ : ∃ front close,
          (openPower algebraic base).reverse = front ++ (base.reverse ++ close) ∧ front ≠ [] ∧
            ∀ c ∈ front ++ close, c ∈ ['(', ')', '*'] := by
        rw [openPower]
        split_ifs
        · exact ⟨['('], [], by simp, List.cons_ne_nil _ _, by simp⟩
        · exact ⟨['(', '('], [')'], by simp, List.cons_ne_nil _ _, by simp⟩
      refine ⟨base, rest, front, close ++ ('*' :: '*' :: (c :: cs).filterMap superscript? ++ [')']),
        hsplit, by simp [hpower], hne, by simp, fun d hd => ?_⟩
      simp only [List.mem_append, List.mem_cons, List.mem_filterMap, List.not_mem_nil,
        or_false] at hd
      rcases hd with hd | hd | (rfl | rfl | ⟨e, -, he⟩) | rfl
      · exact Or.inl (hmarks d (List.mem_append_left _ hd))
      · exact Or.inl (hmarks d (List.mem_append_right _ hd))
      · exact Or.inl (by decide)
      · exact Or.inl (by decide)
      · exact Or.inr (superscript?_isDigit he)
      · exact Or.inl (by decide)
  · rename_i hc
    cases h
    refine Or.inl ⟨Bool.eq_false_iff.2 hc, ?_⟩
    rw [List.reverse_append, List.reverse_reverse]

theorem forall_mem_appendSegment {P : Char → Prop} {segment : List Char}
    (hsegment : IsSegment isSuperscript segment)
    (hmarks : ∀ c ∈ ['(', ')', '*'], P c) (hdigit : ∀ c, c.isDigit → P c)
    (hkept : ∀ c ∈ segment, isSuperscript c = false → P c) (hdone : ∀ c ∈ done, P c)
    (h : appendSegment algebraic done segment = .ok t) : ∀ c ∈ t, P c := by
  intro c hc
  rw [← List.mem_reverse] at hc
  rcases appendSegment_cases hsegment h with ⟨hrun, heq⟩ |
    ⟨-, base, rest, front, back, hsplit, heq, -, -, hmark⟩
  · obtain ⟨d, hd, rfl⟩ := hsegment.exists_of_not_isRun hrun
    rw [heq, List.mem_append, List.mem_reverse, List.mem_singleton] at hc
    rcases hc with hc | rfl
    · exact hdone c hc
    · exact hkept c List.mem_cons_self hd
  · rw [← splitBase?_append hsplit] at hdone
    have hadded : ∀ d ∈ front ++ back, P d := fun d hd =>
      (hmark d hd).elim (hmarks d) (hdigit d)
    simp only [heq, List.mem_append, List.mem_reverse] at hc
    rcases hc with hc | hc | hc | hc
    · exact hdone c (List.mem_append_right _ hc)
    · exact hadded c (List.mem_append_left _ hc)
    · exact hdone c (List.mem_append_left _ hc)
    · exact hadded c (List.mem_append_right _ hc)

/-- **What exponents become**: marks and digits, and the text less its superscripts. -/
theorem forall_mem_writeExponents {P : Char → Prop} (hmarks : ∀ c ∈ ['(', ')', '*'], P c)
    (hdigit : ∀ c, c.isDigit → P c) (hkept : ∀ c ∈ cs, isSuperscript c = false → P c)
    (h : writeExponents algebraic cs = .ok t) : ∀ c ∈ t, P c := by
  have hrun : ∀ {ss : List (List Char)} {done done' : List Char},
      (∀ s ∈ ss, IsSegment isSuperscript s) →
      (∀ s ∈ ss, ∀ c ∈ s, isSuperscript c = false → P c) → (∀ c ∈ done, P c) →
      ss.foldlM (appendSegment algebraic) done = .ok done' → ∀ c ∈ done', P c := by
    intro ss
    induction ss with
    | nil =>
      intro done done' _ _ hdone h
      cases h
      exact hdone
    | cons s ss ih =>
      intro done done' hsegment hkept hdone h
      rw [List.forall_mem_cons] at hsegment hkept
      rw [List.foldlM_cons] at h
      obtain ⟨next, hnext, h⟩ := bind_eq_ok h
      exact ih hsegment.2 hkept.2
        (forall_mem_appendSegment hsegment.1 hmarks hdigit hkept.1 hdone hnext) h
  obtain ⟨done, hdone, rfl⟩ := map_eq_ok h
  intro c hc
  exact hrun (isCut_segments _ _).segment (forall_mem_segments hkept) (List.forall_mem_nil _) hdone
    c (List.mem_reverse.1 hc)

/-- **Text without superscripts stays as it is.** -/
theorem writeExponents_eq_self (h : ∀ c ∈ cs, isSuperscript c = false) :
    writeExponents algebraic cs = .ok cs := by
  have hrun : ∀ (ss : List (List Char)) (done : List Char),
      (∀ s ∈ ss, ∀ c ∈ s, isSuperscript c = false) →
      ss.foldlM (appendSegment algebraic) done = .ok (ss.flatten.reverse ++ done) := by
    intro ss
    induction ss with
    | nil => exact fun done _ => rfl
    | cons s ss ih =>
      intro done hss
      rw [List.forall_mem_cons] at hss
      have hstep : appendSegment algebraic done s = .ok (s.reverse ++ done) := by
        cases s with
        | nil => rfl
        | cons c cs => rw [appendSegment, hss.1 c List.mem_cons_self, if_neg Bool.false_ne_true]
      rw [List.foldlM_cons, hstep]
      change ss.foldlM (appendSegment algebraic) (s.reverse ++ done) = _
      rw [ih _ hss.2, List.flatten_cons, List.reverse_append, List.append_assoc]
  rw [writeExponents, hrun _ _ (forall_mem_segments h), flatten_segments, List.append_nil]
  change Except.ok cs.reverse.reverse = _
  rw [List.reverse_reverse]

/-- Where names have several letters, no letter stands on either side of the place where a base
starts, or the base starts with a parenthesis. -/
theorem runs_splitBase? {base rest : List Char} (h : splitBase? false done = some (base, rest)) :
    runs Char.isAlpha (rest.reverse ++ base.reverse) =
      runs Char.isAlpha rest.reverse ++ runs Char.isAlpha base.reverse := by
  have hletter : ∀ {p : Char → Bool}, (∀ c, p c = false → c.isAlpha = false) → ∀ cs : List Char,
      ∀ c ∈ (cs.dropWhile p).head?, c.isAlpha = false := by
    intro p hp cs c hc
    have hhead := List.head?_dropWhile_not p cs
    rw [hc] at hhead
    exact hp c (by simpa using hhead)
  refine runs_append ?_
  rw [List.getLast?_reverse, List.head?_reverse]
  cases done with
  | nil => cases h
  | cons c cs =>
    rw [splitBase?] at h
    simp only [Bool.not_false, if_true] at h
    split_ifs at h
    · obtain ⟨⟨group, before⟩, hsplit, heq⟩ := Option.map_eq_some_iff.1 h
      cases heq
      dsimp only
      rw [functionSuffix?, if_neg Bool.false_ne_true]
      split_ifs
      · -- the whole run in front of the group is the name of a function
        refine Or.inl ?_
        have hdrop : (before.takeWhile isNamePart ++ before.dropWhile isNamePart).drop
            (before.takeWhile isNamePart).length = before.dropWhile isNamePart := List.drop_left
        rw [List.takeWhile_append_dropWhile] at hdrop
        rw [Option.getD_some, List.length_reverse, hdrop]
        refine hletter (fun c hc => ?_) before
        rw [isNamePart, Bool.or_eq_false_iff, Char.isAlphanum, Bool.or_eq_false_iff] at hc
        exact hc.1.1
      · refine Or.inr fun c hc => ?_
        rw [Option.getD_none, List.length_nil, List.take_zero, List.append_nil,
          (splitGroup?_append hsplit).2] at hc
        cases hc
        rfl
    · cases h
      refine Or.inl (hletter (fun c hc => ?_) _)
      rw [isOperandPart, isWordPart, isNamePart, Char.isAlphanum] at hc
      simp only [Bool.or_eq_false_iff] at hc
      exact hc.1.1.1.1

theorem runs_appendSegment {segment : List Char} (hsegment : IsSegment isSuperscript segment)
    (h : appendSegment false done segment = .ok t) (x : List Char) :
    runs Char.isAlpha (t.reverse ++ x) = runs Char.isAlpha (done.reverse ++ (segment ++ x)) := by
  rcases appendSegment_cases hsegment h with ⟨-, heq⟩ |
    ⟨hrun, base, rest, front, back, hsplit, heq, hfront, hback, hmark⟩
  · rw [heq, List.append_assoc]
  · have hsuperscripts : ∀ y ∈ superscripts, y.1.isAlpha = false := by decide
    have hsegment' : ∀ d ∈ segment, d.isAlpha = false := by
      intro d hd
      obtain ⟨e, he⟩ := Option.isSome_iff_exists.1 (hsegment.all_of_isRun hrun d hd)
      exact hsuperscripts (d, e) (mem_of_lookup he)
    have hletter : ∀ d ∈ front ++ back, d.isAlpha = false := by
      have hmarks : ['(', ')', '*'].all fun d => !d.isAlpha := by decide
      refine fun d hd => (hmark d hd).elim (fun h => ?_) not_isAlpha_of_isDigit
      simpa using List.all_eq_true.1 hmarks d h
    have hletter' := List.forall_mem_append.1 hletter
    calc runs Char.isAlpha (t.reverse ++ x)
        = runs Char.isAlpha (rest.reverse ++ (front ++ (base.reverse ++ (back ++ x)))) := by
          rw [heq]; simp only [List.append_assoc]
      _ = runs Char.isAlpha rest.reverse ++
            (runs Char.isAlpha base.reverse ++ runs Char.isAlpha x) := by
          rw [runs_append_append hletter'.1 hfront, runs_append_append hletter'.2 hback]
      _ = runs Char.isAlpha done.reverse ++ runs Char.isAlpha x := by
          rw [← splitBase?_append hsplit, List.reverse_append, runs_splitBase? hsplit,
            List.append_assoc]
      _ = runs Char.isAlpha (done.reverse ++ (segment ++ x)) :=
          (runs_append_append hsegment' hsegment.ne_nil _ _).symm

/-- **Exponents keep the runs of letters** where names have several letters. -/
theorem runs_writeExponents (h : writeExponents false cs = .ok t) :
    runs Char.isAlpha t = runs Char.isAlpha cs := by
  have hrun : ∀ {ss : List (List Char)} {done done' front : List Char},
      (∀ s ∈ ss, IsSegment isSuperscript s) →
      (∀ x, runs Char.isAlpha (done.reverse ++ x) = runs Char.isAlpha (front ++ x)) →
      ss.foldlM (appendSegment false) done = .ok done' →
      runs Char.isAlpha done'.reverse = runs Char.isAlpha (front ++ ss.flatten) := by
    intro ss
    induction ss with
    | nil =>
      intro done done' front _ hsame h
      cases h
      simpa using hsame []
    | cons s ss ih =>
      intro done done' front hsegment hsame h
      rw [List.forall_mem_cons] at hsegment
      rw [List.foldlM_cons] at h
      obtain ⟨next, hnext, h⟩ := bind_eq_ok h
      rw [List.flatten_cons, ← List.append_assoc]
      refine ih hsegment.2 (fun x => ?_) h
      rw [List.append_assoc, ← hsame]
      exact runs_appendSegment hsegment.1 hnext x
  obtain ⟨done, hdone, rfl⟩ := map_eq_ok h
  have hall := hrun (isCut_segments _ _).segment (fun x => rfl) hdone
  rwa [flatten_segments] at hall

/-! ## Symbols -/

theorem spellConstants_eq_self (before : Option Char) (h : ∀ c ∈ cs, irrational? c = none) :
    spellConstants before cs = cs := by
  induction cs generalizing before with
  | nil => rfl
  | cons c cs ih =>
    rw [List.forall_mem_cons] at h
    rw [spellConstants, h.1]
    exact congrArg _ (ih _ h.2)

/-- The number that replaces a symbol. -/
theorem literal_of_irrational? {k : Irrational} (h : irrational? c = some k) :
    c.isAlpha = false ∧ k.literal.toList ≠ [] ∧ ∀ d ∈ k.literal.toList, isNumeralPart d := by
  have hall : ∀ k ∈ irrationals, k.symbol.isAlpha = false ∧ k.literal.toList ≠ [] ∧
      k.literal.toList.all isNumeralPart := by decide
  obtain ⟨hsymbol, hne, hliteral⟩ := hall k (List.mem_of_find?_eq_some h)
  have heq := List.find?_some h
  rw [beq_iff_eq] at heq
  exact ⟨heq ▸ hsymbol, hne, List.all_eq_true.1 hliteral⟩

/-- **A symbol becomes text without letters**, a number and perhaps signs at its ends. -/
theorem spellConstants_cons {k : Irrational} (before : Option Char) (h : irrational? c = some k)
    (cs : List Char) : ∃ x after, spellConstants before (c :: cs) = x ++ spellConstants after cs ∧
      x ≠ [] ∧ ∀ d ∈ x, isNumeralPart d ∨ d = '*' := by
  obtain ⟨-, hne, hliteral⟩ := literal_of_irrational? h
  rw [spellConstants, h]
  dsimp only
  generalize (before.any _) = opening
  generalize (cs.head?.any _) = closing
  have hopening : ∀ d ∈ (if opening then ['*'] else []), d = '*' := by
    cases opening <;> simp
  refine ⟨(if opening then ['*'] else []) ++ k.literal.toList ++ (if closing then ['*'] else []),
    if closing then some '*' else k.literal.toList.getLast?, ?_, by simp [hne], fun d hd => ?_⟩
  · cases closing <;> simp
  · simp only [List.mem_append] at hd
    rcases hd with (hd | hd) | hd
    · exact Or.inr (hopening d hd)
    · exact Or.inl (hliteral d hd)
    · cases closing <;> simp_all

/-- **Numbers in the place of symbols keep the runs of letters.** -/
theorem runs_spellConstants (before : Option Char) (front cs : List Char) :
    runs Char.isAlpha (front ++ spellConstants before cs) = runs Char.isAlpha (front ++ cs) := by
  induction cs generalizing before front with
  | nil => rfl
  | cons c cs ih =>
    cases hc : irrational? c with
    | none =>
      rw [spellConstants, hc]
      change runs Char.isAlpha (front ++ c :: spellConstants (some c) cs) = _
      rw [List.append_cons, ih, ← List.append_cons]
    | some k =>
      obtain ⟨x, after, heq, hne, hx⟩ := spellConstants_cons before hc cs
      have hletter : ∀ d ∈ x, d.isAlpha = false := by
        intro d hd
        rcases hx d hd with hpart | rfl
        · rw [isNumeralPart, Bool.or_eq_true, beq_iff_eq] at hpart
          rcases hpart with hdigit | rfl
          · exact not_isAlpha_of_isDigit hdigit
          · rfl
        · rfl
      rw [heq, runs_append_append hletter hne, runs_append_cons (literal_of_irrational? hc).1]
      exact congrArg _ (ih after [])

theorem isPlain_spellConstants (before : Option Char)
    (h : ∀ c ∈ cs, isOperandPart c ∨ c ∈ marks) : ∀ c ∈ spellConstants before cs, isPlain c := by
  induction cs generalizing before with
  | nil => exact List.forall_mem_nil _
  | cons c cs ih =>
    rw [List.forall_mem_cons] at h
    cases hc : irrational? c with
    | none =>
      rw [spellConstants, hc]
      refine List.forall_mem_cons.2 ⟨?_, ih _ h.2⟩
      rw [isOperandPart, isIrrational, hc, Option.isSome_none, Bool.or_false] at h
      rw [isPlain, Bool.or_eq_true, List.contains_iff_mem]
      exact h.1
    | some k =>
      obtain ⟨x, after, heq, -, hx⟩ := spellConstants_cons before hc cs
      rw [heq]
      intro d hd
      rcases List.mem_append.1 hd with hd | hd
      · rw [isPlain]
        rcases hx d hd with hpart | rfl
        · rw [isWordPart_of_isNumeralPart hpart]
          rfl
        · decide
      · exact ih _ h.2 d hd

/-! ## What is read -/

variable {options : FormulaOptions} {raw : String} {s : Canonical}

theorem checkAlphabet_eq_ok (h : checkAlphabet cs = .ok ()) : ∀ c ∈ cs, isAuthorized c := by
  rw [checkAlphabet] at h
  split at h
  · cases h
  · rename_i hnone
    rw [List.find?_eq_none] at hnone
    simpa using hnone

/-- **A canonical form is that of a reading** of words and marks. Where names have several
letters, no word for a symbol is read. -/
theorem reading_of_canonicalize (h : canonicalize options raw = .ok s) :
    ∃ text r, (∀ c ∈ text, isPlain c) ∧
      readSegments options.algebraic (segments isWordPart text) = .ok r ∧
      s.text = String.ofList (joinPieces options.algebraic r.pieces) ∧
      s.names = r.classification ∧ s.names.vars.find? s.names.functions.contains = none ∧
      (options.words → options.algebraic = false → hasSymbolWord text = false) := by
  rw [canonicalize] at h
  obtain ⟨⟨⟩, halphabet, h⟩ := bind_eq_ok h
  obtain ⟨powers, hpowers, h⟩ := bind_eq_ok h
  obtain ⟨⟨canonical, names⟩, hclassify, h⟩ := bind_eq_ok h
  cases h
  have hraw := checkAlphabet_eq_ok halphabet
  generalize raw.toList.filter (fun c => !isBlank c) = text at hraw hpowers
  rw [classify] at hclassify
  obtain ⟨r, hread, hclassify⟩ := bind_eq_ok hclassify
  dsimp only at hclassify
  split at hclassify
  · cases hclassify
  · rename_i hnone
    cases hclassify
    refine ⟨_, r, isPlain_spellConstants none ?_, hread, rfl, rfl, hnone, fun hwords halgebraic => ?_⟩
    · have hexpanded : ∀ c ∈ (if options.words then expandWords text else text), isAuthorized c := by
        split_ifs
        · exact isAuthorized_expandWords hraw
        · exact hraw
      have hmarks : ['(', ')', '*'].all fun c => marks.contains c := by decide
      refine forall_mem_writeExponents (fun c hc => ?_) (fun c hc => ?_) (fun c hc hplain => ?_)
        hpowers
      · exact Or.inr (List.contains_iff_mem.1 (List.all_eq_true.1 hmarks c hc))
      · refine Or.inl ?_
        rw [isOperandPart, isWordPart, isNamePart_of_isDigit hc]
        rfl
      · have hauthorized := hexpanded c hc
        rw [isAuthorized, hplain, Bool.or_false, Bool.or_eq_true, List.contains_iff_mem] at hauthorized
        exact hauthorized
    · rw [halgebraic, if_pos hwords] at hpowers
      have hruns : runs Char.isAlpha (spellConstants none powers) = runs Char.isAlpha powers :=
        runs_spellConstants none [] powers
      rw [hasSymbolWord_congr (hruns.trans (runs_writeExponents hpowers))]
      exact hasSymbolWord_expandWords text

theorem fitted_of_readSegments {text : List Char} {r : Reading} (hplain : ∀ c ∈ text, isPlain c)
    (hread : readSegments algebraic (segments isWordPart text) = .ok r) :
    Fitted algebraic r.pieces := by
  refine (fitted_readSegments (isCut_segments _ _) (fun s hs hrun => ?_) hread).1
  obtain ⟨c, hc, rfl⟩ := ((isCut_segments _ _).segment s hs).exists_of_not_isRun hrun
  have hchar := forall_mem_segments hplain [c] hs c List.mem_cons_self
  rw [isPlain, hc, Bool.false_or, List.contains_iff_mem] at hchar
  exact ⟨c, hchar, rfl⟩

end NodeFormula
