import NodeFormula.Proofs.Formula.Stages
/-!
# NodeFormula — canonical text is in canonical form

Canonical text has no blanks, superscripts or symbols, and no word for a symbol
(`not_hasSymbolWord_texts`), so the first stages leave it as it is. What is read of it are the
pieces it was made of, with their multiplication signs. So a second run changes nothing
(`canonicalize_canonical`); only the composites, which were spelled out, are gone.
-/

namespace NodeFormula

variable {algebraic : Bool} {c : Char} {cs text : List Char} {p : Piece} {ps : List Piece}
  {r : Reading}

/-! ## Text of pieces that fit -/

theorem isPlain_of_settled (h : p.Settled algebraic) : ∀ c ∈ p.text, isPlain c := by
  intro c hc
  rw [isPlain]
  cases hrun : isRun isWordPart p.text with
  | true =>
    rw [h.isSegment.1.all_of_isRun hrun c hc]
    rfl
  | false =>
    have hrole : p.role = .punctuation := by
      simpa [Piece.isWord] using h.isSegment.2.symm.trans hrun
    rw [Piece.Settled, hrole] at h
    obtain ⟨d, hd, htext⟩ := h
    rw [htext, List.mem_singleton] at hc
    rw [hc, Bool.or_eq_true, List.contains_iff_mem]
    exact Or.inr hd

/-- No run of letters goes from one piece into the next. -/
theorem runs_texts (h : Fitted algebraic ps) : runs Char.isAlpha (ps.map Piece.text).flatten =
    ps.flatMap fun p => runs Char.isAlpha p.text := by
  have hmark : ∀ {q : Piece}, q.Settled algebraic → q.isWord = false →
      ∃ c, c.isAlpha = false ∧ q.text = [c] := by
    intro q hq hword
    have hmarks : marks.all fun c => !c.isAlpha := by decide
    have hrole : q.role = .punctuation := by simpa [Piece.isWord] using hword
    rw [Piece.Settled, hrole] at hq
    obtain ⟨c, hc, htext⟩ := hq
    exact ⟨c, by simpa using List.all_eq_true.1 hmarks c hc, htext⟩
  induction ps with
  | nil => rfl
  | cons p ps ih =>
    obtain ⟨hp, hps⟩ := h
    rw [List.map_cons, List.flatten_cons, runs_append, ih hps, List.flatMap_cons]
    cases hword : p.isWord with
    | false =>
      obtain ⟨c, hc, htext⟩ := hmark hp.settled hword
      refine Or.inl fun d hd => ?_
      rw [htext] at hd
      cases hd
      exact hc
    | true =>
      refine Or.inr fun d hd => ?_
      cases ps with
      | nil => cases hd
      | cons q ps =>
        obtain ⟨c, hc, htext⟩ := hmark hps.1.settled (hp.apart hword q rfl)
        rw [List.map_cons, List.flatten_cons, htext] at hd
        cases hd
        exact hc

theorem hasSymbolWord_texts (h : Fitted algebraic ps) :
    hasSymbolWord (ps.map Piece.text).flatten = ps.any fun p => hasSymbolWord p.text := by
  rw [Bool.eq_iff_iff, hasSymbolWord_iff, runs_texts h, List.any_eq_true]
  simp only [List.mem_flatMap, hasSymbolWord_iff]
  exact ⟨fun ⟨w, ⟨p, hp, hw⟩, hsome⟩ => ⟨p, hp, w, hw, hsome⟩,
    fun ⟨p, hp, w, hw, hsome⟩ => ⟨w, ⟨p, hp, hw⟩, hsome⟩⟩

/-- A word for a symbol has several letters. -/
theorem hasSymbolWord_eq_false (h : ∀ c ∈ cs, c.isAlpha = false) : hasSymbolWord cs = false := by
  refine Bool.eq_false_iff.2 fun hword => ?_
  obtain ⟨w, hw, -⟩ := hasSymbolWord_iff.1 hword
  obtain ⟨hw, hrun⟩ := List.mem_filter.1 hw
  obtain ⟨c, w, rfl⟩ := List.exists_cons_of_ne_nil ((isCut_segments _ _).ne_nil_of_mem hw)
  have hc := forall_mem_segments h _ hw c List.mem_cons_self
  exact absurd (hrun.symm.trans hc) (by decide)

theorem hasSymbolWord_single (c : Char) : hasSymbolWord [c] = false := by
  have hlength : ∀ x ∈ symbolWords, x.1.toList.length ≠ 1 := by decide
  rw [hasSymbolWord, List.any_eq_false]
  intro w hw hsome
  have hsegments : segments Char.isAlpha [c] = [[c]] := rfl
  rw [hsegments, List.mem_singleton] at hw
  obtain ⟨symbol, hsymbol⟩ := Option.isSome_iff_exists.1 hsome
  refine hlength (String.ofList w, symbol) (mem_of_lookup hsymbol) ?_
  rw [hw, String.toList_ofList]
  rfl

/-- In algebraic notation no piece holds a word for a symbol. -/
theorem not_hasSymbolWord_of_settled (h : p.Settled true) : hasSymbolWord p.text = false := by
  have hfunctions : ∀ f ∈ Catalogue.functions, hasSymbolWord f.name.toList = false := by
    decide +kernel
  obtain ⟨role, text⟩ := p
  cases role with
  | constant =>
    obtain ⟨hnumeric, -⟩ : isNumeric text ∧ (readFloat? (String.ofList text)).isSome := h
    rw [isNumeric, Bool.and_eq_true, List.all_eq_true] at hnumeric
    refine hasSymbolWord_eq_false fun c hc => ?_
    have hpart := hnumeric.2 c hc
    rw [isNumeralPart, Bool.or_eq_true, beq_iff_eq] at hpart
    rcases hpart with hdigit | rfl
    · exact not_isAlpha_of_isDigit hdigit
    · rfl
  | free =>
    obtain ⟨c, -, rfl⟩ : ∃ c : Char, c.isAlpha ∧ text = [c] := h
    exact hasSymbolWord_single c
  | function =>
    obtain ⟨f, hf⟩ := Option.isSome_iff_exists.1 (h.resolve_right fun hfalse => by cases hfalse.1)
    obtain ⟨hmem, hname⟩ := mem_of_get? hf
    have hnone := hfunctions f hmem
    rwa [hname, String.toList_ofList] at hnone
  | punctuation =>
    obtain ⟨c, -, rfl⟩ : ∃ c ∈ marks, text = [c] := h
    exact hasSymbolWord_single c

/-- Where names have several letters, each segment is one piece. -/
theorem texts_of_readSegments {ss : List (List Char)} (h : readSegments false ss = .ok r) :
    r.pieces.map Piece.text = ss := by
  have hvalue : ∀ {word : List Char} {r : Reading}, readValue false word = .ok r →
      r.pieces.map Piece.text = [word] := by
    intro word r h
    rw [readValue] at h
    simp only [Bool.not_false, if_true] at h
    split_ifs at h with hnumeric
    · obtain ⟨p, hp, rfl⟩ := map_eq_ok h
      rw [(settled_of_readConstant false hnumeric hp).1]
      rfl
    · cases h
      rfl
  have hsegment : ∀ {s : List Char} {next : Option (List Char)} {r : Reading},
      readSegment false s next = .ok r → r.pieces.map Piece.text = [s] := by
    intro s next r h
    rw [readSegment] at h
    split_ifs at h
    · cases h
      rfl
    · rw [readCallee] at h
      simp only [Bool.false_eq_true, if_false] at h
      split_ifs at h
      · cases h
        rfl
      · cases h
        rfl
      · exact hvalue h
    · exact hvalue h
  induction ss generalizing r with
  | nil =>
    cases h
    rfl
  | cons s ss ih =>
    rw [readSegments] at h
    obtain ⟨first, hfirst, h⟩ := bind_eq_ok h
    obtain ⟨rest, hrest, h⟩ := bind_eq_ok h
    cases h
    rw [Reading.append, List.map_append, hsegment hfirst, ih hrest]
    rfl

theorem mem_starred (h : p ∈ starred algebraic ps) : p ∈ ps ∨ p = .star := by
  fun_induction starred algebraic ps with
  | case1 => exact Or.inl h
  | case2 q => exact Or.inl h
  | case3 q q' rest himplied ih =>
    rcases List.mem_cons.1 h with rfl | h
    · exact Or.inl List.mem_cons_self
    · rcases List.mem_cons.1 h with rfl | h
      · exact Or.inr rfl
      · exact (ih h).imp (List.mem_cons_of_mem _) id
  | case4 q q' rest himplied ih =>
    rcases List.mem_cons.1 h with rfl | h
    · exact Or.inl List.mem_cons_self
    · exact (ih h).imp (List.mem_cons_of_mem _) id

/-- **Canonical text has no word for a symbol**: in algebraic notation since words are single
letters and functions, else since the text that was read has none. -/
theorem not_hasSymbolWord_texts (hplain : ∀ c ∈ text, isPlain c)
    (hread : readSegments algebraic (segments isWordPart text) = .ok r)
    (hnone : algebraic = false → hasSymbolWord text = false) :
    hasSymbolWord ((starred algebraic r.pieces).map Piece.text).flatten = false := by
  have hfitted := fitted_of_readSegments hplain hread
  rw [hasSymbolWord_texts hfitted.starred, List.any_eq_false]
  intro p hp
  rw [Bool.not_eq_true]
  cases algebraic with
  | true => exact not_hasSymbolWord_of_settled (hfitted.starred.settled p hp)
  | false =>
    have htext : (r.pieces.map Piece.text).flatten = text := by
      rw [texts_of_readSegments hread, flatten_segments]
    rcases mem_starred hp with hp | rfl
    · have hall := hnone rfl
      rw [← htext, hasSymbolWord_texts hfitted, List.any_eq_false] at hall
      exact Bool.eq_false_iff.2 (hall p hp)
    · exact hasSymbolWord_single '*'

/-! ## The second run -/

/-- **Plain text without words for symbols is read as it stands.** -/
theorem canonicalize_of_isPlain {options : FormulaOptions} (hplain : ∀ c ∈ cs, isPlain c)
    (hwords : options.words → hasSymbolWord cs = false) :
    canonicalize options (String.ofList cs) =
      (classify options.algebraic cs).map fun x => ⟨String.ofList x.1, x.2⟩ := by
  have hblank : cs.filter (fun c => !isBlank c) = cs :=
    List.filter_eq_self.2 fun c hc => by rw [not_isBlank_of_isPlain (hplain c hc)]; rfl
  have halphabet : checkAlphabet cs = .ok () := by
    rw [checkAlphabet, List.find?_eq_none.2 fun c hc => ?_]
    rw [isAuthorized_of_isPlain (hplain c hc)]
    decide
  have hexpanded : (if options.words then expandWords cs else cs) = cs := by
    split_ifs with h
    · exact expandWords_eq_self (hwords h)
    · rfl
  have hpowers : writeExponents options.algebraic cs = .ok cs :=
    writeExponents_eq_self fun c hc => (not_special_of_isPlain (hplain c hc)).1
  rw [canonicalize, String.toList_ofList, hblank, bind_of_ok halphabet]
  dsimp only
  rw [hexpanded, bind_of_ok hpowers,
    spellConstants_eq_self none fun c hc => (not_special_of_isPlain (hplain c hc)).2]
  cases classify options.algebraic cs <;> rfl

theorem starred_eq_self (h : Unstarred algebraic ps) : starred algebraic ps = ps := by
  fun_induction starred algebraic ps with
  | case1 => rfl
  | case2 p => rfl
  | case3 p q rest himplied ih =>
    rw [Unstarred, List.isChain_cons] at h
    rw [h.1 q rfl] at himplied
    cases himplied
  | case4 p q rest himplied ih =>
    rw [Unstarred, List.isChain_cons] at h
    rw [ih h.2]

/-- Pieces give the same names with their signs written out. -/
theorem classification_starred (algebraic : Bool) (r : Reading) :
    Reading.classification ⟨starred algebraic r.pieces, []⟩ =
      { r.classification with composites := [] } := by
  simp only [Reading.classification, Reading.texts]
  rw [filter_starred .free (by decide), filter_starred .constant (by decide),
    filter_starred .function (by decide)]
  rfl

/-- **A canonical form is its own canonical form**: it has the same text and the same names and
numbers, and nothing is left to be spelled out. -/
theorem canonicalize_canonical {options : FormulaOptions} {raw : String} {s : Canonical}
    (h : canonicalize options raw = .ok s) :
    canonicalize options s.text = .ok ⟨s.text, { s.names with composites := [] }⟩ := by
  obtain ⟨text, r, hplain, hread, htext, hnames, hdisjoint, hwords⟩ := reading_of_canonicalize h
  have hfitted := (fitted_of_readSegments hplain hread).starred
  have hunstarred := unstarred_starred options.algebraic r.pieces
  have hjoin : joinPieces options.algebraic (starred options.algebraic r.pieces) =
      joinPieces options.algebraic r.pieces := by
    rw [joinPieces_eq, starred_eq_self hunstarred, ← joinPieces_eq]
  have hclassify : classify options.algebraic (joinPieces options.algebraic r.pieces) =
      .ok (joinPieces options.algebraic r.pieces, { s.names with composites := [] }) := by
    rw [classify, joinPieces_eq, segments_flatten hfitted.isCut,
      bind_of_ok (readSegments_texts hfitted hunstarred), ← joinPieces_eq]
    dsimp only
    rw [classification_starred, ← hnames, hdisjoint, hjoin]
    rfl
  rw [htext]
  rw [canonicalize_of_isPlain, hclassify]
  · rfl
  · intro c hc
    rw [joinPieces_eq] at hc
    obtain ⟨_, hmem, hc⟩ := List.mem_flatten.1 hc
    obtain ⟨p, hp, rfl⟩ := List.mem_map.1 hmem
    exact isPlain_of_settled (hfitted.settled p hp) c hc
  · rw [joinPieces_eq]
    exact fun h => not_hasSymbolWord_texts hplain hread (hwords h)

/-- A formula with a composite, a power, a product with a function and a word for a symbol. -/
theorem canonicalize_canonical_mixed :
    canonicalize .standard "3xsin(2y)(b+1)² / Pi" = .ok ⟨"3*x*sin(2*y)*((b+1)**2)/3.1415927",
      ["x", "y", "b"], ["3", "2", "1", "3.1415927"], ["sin"], ["3x", "2y"]⟩ ∧
    canonicalize .standard "3*x*sin(2*y)*((b+1)**2)/3.1415927" =
      .ok ⟨"3*x*sin(2*y)*((b+1)**2)/3.1415927",
        ["x", "y", "b"], ["3", "2", "1", "3.1415927"], ["sin"], []⟩ := by
  have h : canonicalize .standard "3xsin(2y)(b+1)² / Pi" = .ok ⟨"3*x*sin(2*y)*((b+1)**2)/3.1415927",
      ["x", "y", "b"], ["3", "2", "1", "3.1415927"], ["sin"], ["3x", "2y"]⟩ := by decide +kernel
  exact ⟨h, canonicalize_canonical h⟩

end NodeFormula
