import NodeFormula.Formula
import NodeFormula.Proofs.Build.Plan
import NodeFormula.Proofs.Result
import NodeFormula.Proofs.Text.Segments
import NodeFormula.Proofs.Token.Written
/-!
# NodeFormula — pieces of a canonical text

A reading of a formula is a list of pieces that *fit*: words do not touch, a function stands
in front of a parenthesis, and a value does so only where a multiplication sign is understood
(`fitted_readSegments`). With these signs written out (`starred`) the pieces fit still, and no
sign is understood any more. The text of such pieces is cut into their texts and each is read
as what it is, so the text gives the pieces back (`readSegments_texts`).
-/

namespace NodeFormula

/-! ## Characters and words -/

/-- The characters between words. -/
def marks : List Char := ['+', '-', '*', '/', '%', '(', ')', ',']

theorem isWordPart_of_isNumeralPart {c : Char} (h : isNumeralPart c) : isWordPart c := by
  rw [isNumeralPart, Bool.or_eq_true] at h
  rw [isWordPart, Bool.or_eq_true]
  exact h.imp isNamePart_of_isDigit id

theorem not_isWordPart_of_mem_marks {c : Char} (h : c ∈ marks) : isWordPart c = false := by
  have hall : marks.all fun c => !isWordPart c := by decide
  simpa using List.all_eq_true.1 hall c h

theorem not_isNumeralPart_of_isNameStart {c : Char} (h : isNameStart c) : isNumeralPart c = false := by
  rw [isNameStart, Bool.or_eq_true, beq_iff_eq] at h
  rw [isNumeralPart, Bool.or_eq_false_iff, beq_eq_false_iff_ne]
  rcases h with h | rfl
  · refine ⟨Bool.eq_false_iff.2 fun hdigit => ?_, ?_⟩
    · rw [not_isAlpha_of_isDigit hdigit] at h
      cases h
    · rintro rfl
      exact absurd h (by decide)
  · decide

theorem isName_iff {word : List Char} : isIdentifier word = true ↔ IsName word := by
  cases word with
  | nil => simp [isIdentifier, IsName]
  | cons c cs => simp [isIdentifier, IsName]

theorem IsName.isWordPart {word : List Char} (h : IsName word) : ∀ c ∈ word, isWordPart c := by
  obtain ⟨c, r, rfl, hc, hr⟩ := h
  have hpart : ∀ d ∈ c :: r, isNamePart d :=
    List.forall_mem_cons.2 ⟨isNamePart_of_isNameStart hc, hr⟩
  exact fun d hd => by rw [NodeFormula.isWordPart, hpart d hd]; rfl

/-- A name is no number. -/
theorem IsName.not_isNumeric {word : List Char} (h : IsName word) : isNumeric word = false := by
  obtain ⟨c, r, rfl, hc, -⟩ := h
  simp [isNumeric, not_isNumeralPart_of_isNameStart hc]

theorem isName_of_isKnown {word : List Char} (h : Catalogue.isKnown (String.ofList word)) :
    IsName word := by
  have hall : ∀ f ∈ Catalogue.functions, isIdentifier f.name.toList := by decide +kernel
  obtain ⟨f, hf⟩ := Option.isSome_iff_exists.1 h
  obtain ⟨hmem, hname⟩ := mem_of_get? hf
  have hid := hall f hmem
  rw [hname, String.toList_ofList] at hid
  exact isName_iff.1 hid

/-- A single letter is neither a function nor reserved. -/
theorem isTaken_single (c : Char) : isTaken [c] = false := by
  have hfunctions : ∀ f ∈ Catalogue.functions, f.name.toList.length ≠ 1 := by decide +kernel
  have hreserved : ∀ w ∈ Catalogue.reservedWords, w.toList.length ≠ 1 := by decide
  rw [isTaken, Bool.or_eq_false_iff]
  refine ⟨Bool.eq_false_iff.2 fun hknown => ?_, Bool.eq_false_iff.2 fun hword => ?_⟩
  · obtain ⟨f, hf⟩ := Option.isSome_iff_exists.1 hknown
    obtain ⟨hmem, hname⟩ := mem_of_get? hf
    exact hfunctions f hmem (by rw [hname, String.toList_ofList]; rfl)
  · exact hreserved _ (List.contains_iff_mem.1 hword) (by rw [String.toList_ofList]; rfl)

/-! ## Pieces that fit -/

variable {algebraic : Bool} {p q : Piece} {ps qs : List Piece} {next : Option Piece}
  {word : List Char} {r : Reading}

namespace Piece

/-- A piece that is no punctuation. -/
def isWord (p : Piece) : Bool := p.role != .punctuation

/-- **A piece as a reading has it.** -/
def Settled (algebraic : Bool) (p : Piece) : Prop :=
  match p.role with
  | .constant => isNumeric p.text ∧ (readFloat? (String.ofList p.text)).isSome
  | .free =>
    if algebraic then ∃ c : Char, c.isAlpha ∧ p.text = [c]
    else isIdentifier p.text ∧ isTaken p.text = false
  | .function =>
    Catalogue.isKnown (String.ofList p.text) ∨
      algebraic = false ∧ isIdentifier p.text ∧ Catalogue.isReserved (String.ofList p.text) = false
  | .punctuation => ∃ c ∈ marks, p.text = [c]

/-- **A piece fits in front of the next one.** -/
structure Fits (algebraic : Bool) (p : Piece) (next : Option Piece) : Prop where
  settled : p.Settled algebraic
  apart : p.isWord → ∀ q ∈ next, q.isWord = false
  called : p.role = .function → ∃ q ∈ next, q.isOpening
  grouped : p.isWord → ∀ q ∈ next, q.isOpening → p.role = .function ∨ impliesStar algebraic p q

theorem isName_of_free {text : List Char} (h : (Piece.mk .free text).Settled algebraic) :
    IsName text := by
  cases algebraic with
  | true =>
    obtain ⟨c, hc, rfl⟩ : ∃ c : Char, c.isAlpha ∧ text = [c] := h
    exact ⟨c, [], rfl, by rw [isNameStart, hc]; rfl, List.forall_mem_nil _⟩
  | false =>
    obtain ⟨hid, -⟩ : isIdentifier text ∧ isTaken text = false := h
    exact isName_iff.1 hid

theorem isName_of_function {text : List Char} (h : (Piece.mk .function text).Settled algebraic) :
    IsName text := by
  rcases h with h | ⟨-, h, -⟩
  · exact isName_of_isKnown h
  · exact isName_iff.1 h

/-- The text of a word is a run, that of punctuation a single character. -/
theorem Settled.isSegment (h : p.Settled algebraic) :
    IsSegment isWordPart p.text ∧ isRun isWordPart p.text = p.isWord := by
  have hword : ∀ {text : List Char}, text ≠ [] → (∀ c ∈ text, isWordPart c) →
      IsSegment isWordPart text ∧ isRun isWordPart text = true := by
    intro text hne hall
    refine ⟨Or.inl ⟨hne, hall⟩, ?_⟩
    obtain ⟨c, r, rfl⟩ := List.exists_cons_of_ne_nil hne
    exact hall c List.mem_cons_self
  have hname : ∀ {text : List Char}, IsName text →
      IsSegment isWordPart text ∧ isRun isWordPart text = true := by
    intro text h
    refine hword ?_ h.isWordPart
    obtain ⟨c, r, rfl, -⟩ := h
    exact List.cons_ne_nil _ _
  obtain ⟨role, text⟩ := p
  cases role with
  | constant =>
    obtain ⟨hnumeric, -⟩ : isNumeric text ∧ (readFloat? (String.ofList text)).isSome := h
    rw [isNumeric, Bool.and_eq_true, Bool.not_eq_true', List.isEmpty_eq_false_iff,
      List.all_eq_true] at hnumeric
    exact hword hnumeric.1 fun c hc => isWordPart_of_isNumeralPart (hnumeric.2 c hc)
  | free => exact hname (isName_of_free h)
  | function => exact hname (isName_of_function h)
  | punctuation =>
    obtain ⟨c, hc, rfl⟩ : ∃ c ∈ marks, text = [c] := h
    exact ⟨.single _ c, not_isWordPart_of_mem_marks hc⟩

/-- An opening parenthesis is known by its text. -/
theorem Settled.isOpening_iff (h : p.Settled algebraic) : p.isOpening ↔ p.text = ['('] := by
  obtain ⟨role, text⟩ := p
  constructor
  · intro hopen
    simp only [isOpening, beq_iff_eq, Piece.mk.injEq] at hopen
    exact hopen.2
  · rintro rfl
    have hrun := h.isSegment.2
    cases role with
    | punctuation => decide
    | constant | free | function => exact absurd hrun (by decide)

theorem Settled.star : Piece.star.Settled algebraic := ⟨'*', by decide, rfl⟩

/-- Punctuation fits in front of everything. -/
theorem Settled.fits_of_mark (h : p.Settled algebraic) (hp : p.isWord = false) :
    p.Fits algebraic next where
  settled := h
  apart hword := absurd (hword.symm.trans hp) (by decide)
  called hrole := by rw [isWord, hrole] at hp; cases hp
  grouped hword := absurd (hword.symm.trans hp) (by decide)

/-- A value fits in front of punctuation, of a parenthesis only where a sign is understood. -/
theorem Settled.fits_of_value (h : p.Settled algebraic) (hp : p.isValue)
    (hapart : ∀ q ∈ next, q.isWord = false)
    (hopen : ∀ q ∈ next, q.isOpening → algebraic ∨ p.role = .constant) : p.Fits algebraic next where
  settled := h
  apart _ := hapart
  called hrole := by simp [isValue, hrole] at hp
  grouped _ q hq hqopen := by
    refine Or.inr ?_
    rw [impliesStar]
    cases algebraic with
    | true => simp [hp, hqopen]
    | false => simp [(hopen q hq hqopen).resolve_left Bool.false_ne_true, hqopen]

end Piece

/-- **Every piece fits in front of the next one.** -/
def Fitted (algebraic : Bool) : List Piece → Prop
  | [] => True
  | p :: ps => p.Fits algebraic ps.head? ∧ Fitted algebraic ps

theorem Fitted.settled (h : Fitted algebraic ps) : ∀ p ∈ ps, p.Settled algebraic := by
  induction ps with
  | nil => exact List.forall_mem_nil _
  | cons p ps ih => exact List.forall_mem_cons.2 ⟨h.1.settled, ih h.2⟩

/-- The texts of pieces that fit are a cut of their text. -/
theorem Fitted.isCut (h : Fitted algebraic ps) : IsCut isWordPart (ps.map Piece.text) := by
  induction ps with
  | nil => exact .nil
  | cons p ps ih =>
    obtain ⟨hp, hps⟩ := h
    refine IsCut.cons_iff.2 ⟨hp.settled.isSegment.1, fun t ht => ?_, ih hps⟩
    rw [List.head?_map] at ht
    obtain ⟨q, hq, rfl⟩ := Option.map_eq_some_iff.1 ht
    rw [hp.settled.isSegment.2, (hps.settled q (List.mem_of_head? hq)).isSegment.2]
    rintro ⟨hword, hword'⟩
    rw [hp.apart hword q hq] at hword'
    cases hword'

/-! ## Reading pieces back -/

/-- No multiplication sign is understood between the pieces. -/
def Unstarred (algebraic : Bool) (ps : List Piece) : Prop :=
  ps.IsChain fun p q => impliesStar algebraic p q = false

theorem readConstant_of_settled {text : List Char}
    (h : (Piece.mk .constant text).Settled algebraic) : readConstant text = .ok ⟨.constant, text⟩ := by
  obtain ⟨a, ha⟩ := Option.isSome_iff_exists.1 h.2
  rw [readConstant, ha]

/-- A value is read as what it is. -/
theorem readValue_of_settled (h : p.Settled algebraic) (hp : p.isValue) :
    readValue algebraic p.text = .ok (.single p.role p.text) := by
  obtain ⟨role, text⟩ := p
  cases role with
  | constant =>
    have hnumeric : isNumeric text = true := h.1
    rw [readValue, hnumeric, if_pos rfl, readConstant_of_settled h]
    rfl
  | free =>
    have hname := Piece.isName_of_free h
    rw [readValue, hname.not_isNumeric, if_neg Bool.false_ne_true]
    cases algebraic with
    | true =>
      obtain ⟨c, hc, rfl⟩ : ∃ c : Char, c.isAlpha ∧ text = [c] := h
      simp [isTaken_single, hc]
    | false =>
      obtain ⟨hid, htaken⟩ : isIdentifier text ∧ isTaken text = false := h
      simp [htaken, hid]
  | function | punctuation => cases hp

/-- A function is read as one. -/
theorem readCallee_of_settled {text : List Char}
    (h : (Piece.mk .function text).Settled algebraic) :
    readCallee algebraic text = .ok (.single .function text) := by
  rw [readCallee]
  split
  · rfl
  · rename_i hknown
    obtain ⟨rfl, hid, hreserved⟩ := h.resolve_left hknown
    simp [hid, hreserved]

/-- A mark is read as punctuation. -/
theorem readSegment_mark {s : List Char} (h : isRun isWordPart s = false)
    (next : Option (List Char)) :
    readSegment algebraic s next = .ok (.single .punctuation s) := by
  rw [readSegment]
  change (if (!isRun isWordPart s) = true then _ else _) = _
  rw [h]
  rfl

/-- A word is read as what is called where a parenthesis follows, and as a value elsewhere. -/
theorem readSegment_word {s : List Char} (h : isRun isWordPart s = true)
    (next : Option (List Char)) : readSegment algebraic s next =
      if next = some ['('] then readCallee algebraic s else readValue algebraic s := by
  rw [readSegment]
  change (if (!isRun isWordPart s) = true then _ else _) = _
  rw [h]
  rfl

/-- **Pieces are read back from their texts**, where no sign is understood. -/
theorem readSegments_texts (h : Fitted algebraic ps) (hstar : Unstarred algebraic ps) :
    readSegments algebraic (ps.map Piece.text) = .ok ⟨ps, []⟩ := by
  induction ps with
  | nil => rfl
  | cons p ps ih =>
    obtain ⟨hp, hps⟩ := h
    rw [Unstarred, List.isChain_cons] at hstar
    have hfirst : readSegment algebraic p.text (ps.map Piece.text).head? =
        .ok (.single p.role p.text) := by
      have hrun := hp.settled.isSegment.2
      rw [List.head?_map]
      cases hword : p.isWord with
      | false =>
        have hrole : p.role = .punctuation := by simpa [Piece.isWord] using hword
        rw [readSegment_mark (hrun.trans hword), hrole]
      | true =>
        rw [readSegment_word (hrun.trans hword)]
        split
        · -- a word in front of a parenthesis is a function
          rename_i hopen
          obtain ⟨q, hq, htext⟩ := Option.map_eq_some_iff.1 hopen
          have hq' : q.isOpening :=
            (hps.settled q (List.mem_of_head? hq)).isOpening_iff.2 htext
          have hrole : p.role = .function := by
            refine (hp.grouped hword q hq hq').resolve_right fun himplied => ?_
            rw [hstar.1 q hq] at himplied
            cases himplied
          obtain ⟨role, text⟩ := p
          obtain rfl : role = .function := hrole
          exact readCallee_of_settled hp.settled
        · rename_i hopen
          have hrole : p.role ≠ .function := by
            intro hrole
            obtain ⟨q, hq, hqopen⟩ := hp.called hrole
            refine hopen (Option.map_eq_some_iff.2 ⟨q, hq, ?_⟩)
            exact (hps.settled q (List.mem_of_head? hq)).isOpening_iff.1 hqopen
          refine readValue_of_settled hp.settled ?_
          cases hr : p.role <;> simp_all [Piece.isValue, Piece.isWord]
    rw [List.map_cons, readSegments, hfirst]
    change (readSegments algebraic (ps.map Piece.text) >>= fun x => _) = _
    rw [ih hps hstar.2]
    rfl

/-! ## Writing out the multiplication signs -/

/-- The pieces with the multiplication signs that are understood. -/
def starred (algebraic : Bool) : List Piece → List Piece
  | [] => []
  | [p] => [p]
  | p :: q :: rest =>
    if impliesStar algebraic p q then p :: .star :: starred algebraic (q :: rest)
    else p :: starred algebraic (q :: rest)

theorem joinPieces_eq (algebraic : Bool) (ps : List Piece) :
    joinPieces algebraic ps = ((starred algebraic ps).map Piece.text).flatten := by
  fun_induction starred algebraic ps with
  | case1 => rfl
  | case2 p => simp [joinPieces]
  | case3 p q rest himplied ih => simp [joinPieces, himplied, ih, Piece.star]
  | case4 p q rest himplied ih => simp [joinPieces, himplied, ih]

theorem head?_starred (algebraic : Bool) (ps : List Piece) : (starred algebraic ps).head? = ps.head? := by
  fun_cases starred algebraic ps <;> rfl

/-- A sign is understood on neither side of one that is written. -/
theorem impliesStar_star (p : Piece) :
    impliesStar algebraic p .star = false ∧ impliesStar algebraic .star p = false := by
  cases algebraic <;> simp [impliesStar, Piece.star, Piece.isOpening, Piece.isClosing, Piece.isValue]

theorem unstarred_starred (algebraic : Bool) (ps : List Piece) :
    Unstarred algebraic (starred algebraic ps) := by
  fun_induction starred algebraic ps with
  | case1 => exact .nil
  | case2 p => exact .singleton p
  | case3 p q rest himplied ih =>
    refine List.isChain_cons.2 ⟨fun x hx => ?_, List.isChain_cons.2 ⟨fun x hx => ?_, ih⟩⟩
    · cases hx
      exact (impliesStar_star p).1
    · exact (impliesStar_star x).2
  | case4 p q rest himplied ih =>
    refine List.isChain_cons.2 ⟨fun x hx => ?_, ih⟩
    rw [head?_starred] at hx
    cases hx
    exact Bool.eq_false_iff.2 himplied

/-- **The pieces go on fitting** when the signs are written out. -/
theorem Fitted.starred (h : Fitted algebraic ps) : Fitted algebraic (starred algebraic ps) := by
  fun_induction NodeFormula.starred algebraic ps with
  | case1 => exact h
  | case2 p => exact h
  | case3 p q rest himplied ih =>
    obtain ⟨hp, hrest⟩ := h
    refine ⟨⟨hp.settled, fun _ x hx => ?_, fun hrole => ?_, fun _ x hx hopen => ?_⟩,
      Piece.Settled.star.fits_of_mark rfl, ih hrest⟩
    · cases hx
      rfl
    · -- behind a function no sign is understood
      cases algebraic <;> simp [impliesStar, Piece.isValue, Piece.isClosing, hrole] at himplied
      rw [himplied.1] at hrole
      cases hrole
    · cases hx
      exact absurd hopen (by decide)
  | case4 p q rest himplied ih =>
    obtain ⟨hp, hrest⟩ := h
    refine ⟨?_, ih hrest⟩
    rw [head?_starred]
    exact hp

/-- Writing out the signs adds no word. -/
theorem filter_starred (role : Role) (hrole : role ≠ .punctuation) (algebraic : Bool)
    (ps : List Piece) :
    (starred algebraic ps).filter (·.role == role) = ps.filter (·.role == role) := by
  have hstar : (Piece.star.role == role) = false := beq_eq_false_iff_ne.2 hrole.symm
  fun_induction NodeFormula.starred algebraic ps with
  | case1 => rfl
  | case2 p => rfl
  | case3 p q rest himplied ih =>
    simp only [List.filter_cons, hstar, Bool.false_eq_true, if_false] at ih ⊢
    rw [ih]
  | case4 p q rest himplied ih =>
    simp only [List.filter_cons] at ih ⊢
    rw [ih]

/-! ## What is read fits -/

theorem settled_of_readConstant (algebraic : Bool) (hnumeric : isNumeric word) (h : readConstant word = .ok p) :
    p = ⟨.constant, word⟩ ∧ p.Settled algebraic := by
  rw [readConstant] at h
  split at h
  · rename_i a ha
    cases h
    exact ⟨rfl, hnumeric, by rw [ha]; rfl⟩
  · cases h

/-- A part of a composite is a number or a letter. -/
theorem settled_of_readAtom {atom : List Char} (hatom : IsSegment isNumeralPart atom)
    (h : readAtom atom = .ok p) : p.Settled true ∧ p.isValue := by
  rw [readAtom] at h
  split at h
  · rename_i hnumeric
    obtain ⟨rfl, hp⟩ := settled_of_readConstant true hnumeric h
    exact ⟨hp, rfl⟩
  · rename_i hnumeric
    split at h
    · rename_i halpha
      cases h
      have hrun : isRun isNumeralPart atom = false := by
        refine Bool.eq_false_iff.2 fun hrun => hnumeric ?_
        rw [isNumeric, Bool.and_eq_true, Bool.not_eq_true', List.isEmpty_eq_false_iff,
          List.all_eq_true]
        exact ⟨hatom.ne_nil, hatom.all_of_isRun hrun⟩
      obtain ⟨c, -, rfl⟩ := hatom.exists_of_not_isRun hrun
      exact ⟨⟨c, by simpa using halpha, rfl⟩, rfl⟩
    · cases h

theorem settled_of_splitComposite (h : splitComposite word = .ok ps) :
    ∀ p ∈ ps, p.Settled true ∧ p.isValue := by
  intro p hp
  obtain ⟨atom, hatom, hread⟩ := exists_of_mapM_eq_ok h p hp
  exact settled_of_readAtom ((isCut_segments _ _).segment atom (List.mem_of_mem_filter hatom)) hread

/-- What may follow a word: punctuation. -/
def FollowsWord (qs : List Piece) : Prop := ∀ q ∈ qs.head?, q.isWord = false

theorem fitted_intersperse (h : ∀ p ∈ ps, p.Settled true ∧ p.isValue) (hqs : Fitted true qs)
    (hfollows : FollowsWord qs) : Fitted true (ps.intersperse .star ++ qs) := by
  induction ps with
  | nil => exact hqs
  | cons p ps ih =>
    rw [List.forall_mem_cons] at h
    cases ps with
    | nil => exact ⟨h.1.1.fits_of_value h.1.2 hfollows fun _ _ _ => Or.inl rfl, hqs⟩
    | cons q ps =>
      rw [List.intersperse_cons_cons, List.cons_append, List.cons_append]
      refine ⟨h.1.1.fits_of_value h.1.2 (fun x hx => ?_) fun _ _ _ => Or.inl rfl,
        Piece.Settled.star.fits_of_mark rfl, ih h.2⟩
      cases hx
      rfl

/-- **A value fits** in front of punctuation; of a parenthesis if it is no variable of several
letters. -/
theorem fitted_readValue (h : readValue algebraic word = .ok r) (hqs : Fitted algebraic qs)
    (hfollows : FollowsWord qs)
    (hopen : ∀ q ∈ qs.head?, q.isOpening → algebraic ∨
      (isIdentifier word && !Catalogue.isReserved (String.ofList word)) = false) :
    Fitted algebraic (r.pieces ++ qs) := by
  rw [readValue] at h
  split at h
  · rename_i hnumeric
    obtain ⟨p, hp, rfl⟩ := map_eq_ok h
    obtain ⟨rfl, hsettled⟩ := settled_of_readConstant algebraic hnumeric hp
    exact ⟨hsettled.fits_of_value rfl hfollows fun _ _ _ => Or.inr rfl, hqs⟩
  · split at h
    · cases h
    · rename_i htaken
      cases algebraic with
      | false =>
        simp only [Bool.not_false, if_true] at h
        split at h
        · rename_i hid
          cases h
          have htaken' : isTaken word = false := Bool.eq_false_iff.2 htaken
          refine ⟨Piece.Settled.fits_of_value ⟨hid, htaken'⟩ rfl hfollows fun q hq hqopen => ?_, hqs⟩
          -- a name that is free would be a function here
          rw [isTaken, Bool.or_eq_false_iff] at htaken'
          have := (hopen q hq hqopen).resolve_left Bool.false_ne_true
          rw [hid, htaken'.2] at this
          cases this
        · cases h
      | true =>
        rw [Bool.not_true, if_neg Bool.false_ne_true] at h
        split at h
        · rename_i hletter
          cases h
          rw [Bool.and_eq_true, decide_eq_true_eq] at hletter
          obtain ⟨c, rfl⟩ := List.length_eq_one_iff.1 hletter.1
          have hsettled : (Piece.mk .free [c]).Settled true :=
            ⟨c, by simpa using hletter.2, rfl⟩
          exact ⟨hsettled.fits_of_value rfl hfollows fun _ _ _ => Or.inl rfl, hqs⟩
        · obtain ⟨atoms, hatoms, rfl⟩ := map_eq_ok h
          exact fitted_intersperse (settled_of_splitComposite hatoms) hqs hfollows

theorem isKnown_of_functionEnd? {name : List Char} (h : functionEnd? word = some name) :
    Catalogue.isKnown (String.ofList name) := by
  induction word with
  | nil => cases h
  | cons c cs ih =>
    rw [functionEnd?] at h
    split at h
    · rename_i hknown
      cases h
      exact hknown
    · exact ih h

/-- **A word in front of a parenthesis fits** there. -/
theorem fitted_readCallee (h : readCallee algebraic word = .ok r) (hqs : Fitted algebraic qs)
    (hopen : ∃ q ∈ qs.head?, q.isOpening) : Fitted algebraic (r.pieces ++ qs) := by
  obtain ⟨o, ho, hisOpen⟩ := hopen
  have hfollows : FollowsWord qs := by
    intro q hq
    rw [ho] at hq
    cases hq
    simp only [Piece.isOpening, beq_iff_eq] at hisOpen
    rw [hisOpen]
    rfl
  have hfunction : ∀ {name : List Char}, (Piece.mk .function name).Settled algebraic →
      Fitted algebraic (⟨.function, name⟩ :: qs) := fun hname =>
    ⟨⟨hname, fun _ => hfollows, fun _ => ⟨o, ho, hisOpen⟩, fun _ _ _ _ => Or.inl rfl⟩, hqs⟩
  rw [readCallee] at h
  split at h
  · rename_i hknown
    cases h
    exact hfunction (Or.inl hknown)
  · cases algebraic with
    | true =>
      rw [if_pos rfl] at h
      split at h
      · rename_i name hname
        obtain ⟨value, hvalue, h⟩ := bind_eq_ok h
        cases h
        have hrest := hfunction (Or.inl (isKnown_of_functionEnd? hname))
        rw [Reading.append, Reading.append, List.append_assoc, List.append_assoc]
        refine fitted_readValue hvalue ⟨Piece.Settled.star.fits_of_mark rfl, hrest⟩ ?_
          fun _ _ _ => Or.inl rfl
        rintro q hq
        cases hq
        rfl
      · exact fitted_readValue h hqs hfollows fun _ _ _ => Or.inl rfl
    | false =>
      rw [if_neg Bool.false_ne_true] at h
      split at h
      · rename_i hid
        rw [Bool.and_eq_true, Bool.not_eq_true'] at hid
        cases h
        exact hfunction (Or.inr ⟨rfl, hid⟩)
      · rename_i hid
        exact fitted_readValue h hqs hfollows fun _ _ _ => Or.inr (Bool.eq_false_iff.2 hid)

/-- **What is read of segments fits**, and opens with punctuation where the segments do. -/
theorem fitted_readSegments {ss : List (List Char)} (hcut : IsCut isWordPart ss)
    (hmarks : ∀ s ∈ ss, isRun isWordPart s = false → ∃ c ∈ marks, s = [c])
    (h : readSegments algebraic ss = .ok r) :
    Fitted algebraic r.pieces ∧ ∀ s ∈ ss.head?, isRun isWordPart s = false →
      r.pieces.head? = some ⟨.punctuation, s⟩ := by
  induction ss generalizing r with
  | nil =>
    cases h
    exact ⟨trivial, fun s hs => by cases hs⟩
  | cons s ss ih =>
    obtain ⟨-, hapart, hss⟩ := IsCut.cons_iff.1 hcut
    rw [List.forall_mem_cons] at hmarks
    rw [readSegments] at h
    obtain ⟨first, hfirst, h⟩ := bind_eq_ok h
    obtain ⟨rest, hrest, h⟩ := bind_eq_ok h
    cases h
    obtain ⟨hfits, hhead⟩ := ih hss hmarks.2 hrest
    change Fitted algebraic (first.pieces ++ rest.pieces) ∧ _
    cases hrun : isRun isWordPart s with
    | false =>
      rw [readSegment_mark hrun] at hfirst
      cases hfirst
      have hsettled : (Piece.mk .punctuation s).Settled algebraic := hmarks.1 hrun
      refine ⟨⟨hsettled.fits_of_mark rfl, hfits⟩, fun s' hs' _ => ?_⟩
      cases hs'
      rfl
    | true =>
      rw [readSegment_word hrun] at hfirst
      -- the next segment is punctuation, and so is the next piece
      have hnext : ∀ s' ∈ ss.head?, rest.pieces.head? = some ⟨.punctuation, s'⟩ := by
        intro s' hs'
        refine hhead s' hs' (Bool.eq_false_iff.2 fun hrun' => ?_)
        exact hapart s' hs' ⟨hrun, hrun'⟩
      refine ⟨?_, fun s' hs' hfalse => ?_⟩
      · split at hfirst
        · rename_i hopen
          refine fitted_readCallee hfirst hfits ⟨_, hnext _ hopen, by decide⟩
        · rename_i hopen
          -- where nothing follows, nothing is read
          have hpieces : ∀ q ∈ rest.pieces.head?, ∃ s' ∈ ss.head?, q = ⟨.punctuation, s'⟩ := by
            intro q hq
            cases ss with
            | nil =>
              cases hrest
              cases hq
            | cons s' ss =>
              rw [hnext s' rfl] at hq
              exact ⟨s', rfl, (Option.some.inj hq).symm⟩
          refine fitted_readValue hfirst hfits (fun q hq => ?_) fun q hq hqopen => ?_
          · obtain ⟨s', -, rfl⟩ := hpieces q hq
            rfl
          · obtain ⟨s', hs', rfl⟩ := hpieces q hq
            simp only [Piece.isOpening, beq_iff_eq, Piece.mk.injEq, true_and] at hqopen
            exact absurd (hqopen ▸ hs') hopen
      · cases hs'
        rw [hrun] at hfalse
        cases hfalse

end NodeFormula
