import NodeFormula.Proofs.Formula.Ends
import NodeFormula.Proofs.Formula.Tokens
/-!
# NodeFormula — operands side by side

In algebraic notation operands that stand side by side are multiplied, and canonical text has a
sign between them. `Multiplied` relates a text to one with such signs, and `Factored` a text to
pieces that have a sign between the factors of a product. What is read of a text is factored
(`factored_readSegments`), and the signs that are understood between pieces stand between operands,
too (`Factored.multiplied`). No operand is left next to another (`Tokenized.isChain`).
-/

namespace NodeFormula

/-! ## Texts with signs put in -/

/-- An operand ends with the character. -/
def isOperandEnd (c : Char) : Bool := c.isAlphanum || c == '.' || c == ')'

/-- An operand starts with the character. -/
def isOperandStart (c : Char) : Bool := c.isAlphanum || c == '.' || c == '('

/-- The multiplication sign. -/
def isSign (c : Char) : Bool := c == '*'

/-- **A text, and the text with multiplication signs** put in between operands. -/
inductive Multiplied : List Char → List Char → Prop
  | nil : Multiplied [] []
  | char {text written : List Char} (c : Char) : Multiplied text written →
      Multiplied (c :: text) (c :: written)
  /-- A sign between the end of an operand and the start of one. -/
  | star {text written : List Char} {c d : Char} : isOperandEnd c → isOperandStart d →
      Multiplied (d :: text) (d :: written) →
      Multiplied (c :: d :: text) (c :: '*' :: d :: written)

variable {text written word u : List Char} {c : Char}

namespace Multiplied

theorem append_left (h : Multiplied text written) (u : List Char) :
    Multiplied (u ++ text) (u ++ written) := by
  induction u with
  | nil => exact h
  | cons c u ih => exact ih.char c

theorem head?_eq (h : Multiplied text written) : text.head? = written.head? := by
  cases h <;> rfl

/-- A sign between two operands. -/
theorem join (h : Multiplied text written) (hend : ∃ c ∈ u.getLast?, isOperandEnd c)
    (hstart : ∃ d ∈ text.head?, isOperandStart d) :
    Multiplied (u ++ text) (u ++ '*' :: written) := by
  obtain ⟨c, hc, hend⟩ := hend
  obtain ⟨d, hd, hstart⟩ := hstart
  obtain ⟨u, rfl⟩ := List.getLast?_eq_some_iff.1 hc
  have hd' := h.head?_eq.symm.trans hd
  obtain ⟨text, rfl⟩ := List.head?_eq_some_iff.1 hd
  obtain ⟨written, rfl⟩ := List.head?_eq_some_iff.1 hd'
  rw [List.append_assoc, List.append_assoc]
  exact (Multiplied.star hend hstart h).append_left u

/-- **Signs that are next to each other stay so**, and no other signs come to be. -/
theorem runs_eq (h : Multiplied text written) :
    (runs isSign written).filter (2 ≤ ·.length) =
      (runs isSign text).filter (2 ≤ ·.length) := by
  have hends : ∀ c, isOperandEnd c ∨ isOperandStart c → isSign c = false := by
    intro c hc
    refine beq_eq_false_iff_ne.2 ?_
    rintro rfl
    exact absurd hc (by decide)
  -- the signs that have been passed may go on in the text
  suffices ∀ k, (runs isSign (List.replicate k '*' ++ written)).filter (2 ≤ ·.length) =
      (runs isSign (List.replicate k '*' ++ text)).filter (2 ≤ ·.length) from this 0
  induction h with
  | nil => exact fun _ => rfl
  | @char text written c _ ih =>
    intro k
    cases hc : isSign c with
    | true =>
      obtain rfl : c = '*' := beq_iff_eq.1 hc
      simpa [List.replicate_succ'] using ih (k + 1)
    | false =>
      rw [runs_append_cons hc, runs_append_cons hc, List.filter_append, List.filter_append]
      exact congrArg _ (ih 0)
  | @star text written c d hc hd _ ih =>
    intro k
    have hc' := hends c (Or.inl hc)
    have hd' := hends d (Or.inr hd)
    have hsign : runs isSign ('*' :: d :: written) =
        ['*'] :: runs isSign (d :: written) :=
      runs_append (a := ['*']) (Or.inr fun x hx => by cases hx; exact hd')
    rw [runs_append_cons hc', runs_append_cons hc', hsign, List.filter_append, List.filter_append,
      List.filter_cons_of_neg (by decide)]
    exact congrArg _ (ih 0)

end Multiplied

/-! ## The ends of pieces -/

variable {p q : Piece} {ps words : List Piece} {r : Reading}

theorem Piece.isWord_of_isValue (h : p.isValue) : p.isWord := by
  obtain ⟨role, text⟩ := p
  cases role with
  | constant | free => rfl
  | function | punctuation => cases h

/-- A word is an operand from its start to its end. -/
theorem Piece.Settled.ends_of_isWord (h : p.Settled true) (hp : p.isWord) :
    (∃ c ∈ p.text.head?, isOperandStart c) ∧ ∃ c ∈ p.text.getLast?, isOperandEnd c := by
  have hends : ∀ {text : List Char}, text ≠ [] → (∀ c ∈ text, isOperandStart c ∧ isOperandEnd c) →
      (∃ c ∈ text.head?, isOperandStart c) ∧ ∃ c ∈ text.getLast?, isOperandEnd c := fun hne hall =>
    ⟨⟨_, List.head?_eq_some_head hne, (hall _ (List.head_mem hne)).1⟩,
      ⟨_, List.getLast?_eq_some_getLast hne, (hall _ (List.getLast_mem hne)).2⟩⟩
  obtain ⟨role, text⟩ := p
  cases role with
  | constant =>
    obtain ⟨hnumeric, -⟩ : isNumeric text ∧ (readFloat? (String.ofList text)).isSome := h
    rw [isNumeric, Bool.and_eq_true, Bool.not_eq_true', List.isEmpty_eq_false_iff,
      List.all_eq_true] at hnumeric
    refine hends hnumeric.1 fun c hc => ?_
    have hpart := hnumeric.2 c hc
    rw [isNumeralPart, Bool.or_eq_true] at hpart
    rcases hpart with hpart | hpart <;>
      simp [isOperandStart, isOperandEnd, Char.isAlphanum, hpart]
  | free =>
    obtain ⟨c, hc, rfl⟩ : ∃ c : Char, c.isAlpha ∧ text = [c] := h
    refine hends (List.cons_ne_nil _ _) fun d hd => ?_
    rw [List.mem_singleton.1 hd]
    simp [isOperandStart, isOperandEnd, Char.isAlphanum, hc]
  | function =>
    have hall : ∀ f ∈ Catalogue.functions, f.name.toList.head?.any isOperandStart ∧
        f.name.toList.getLast?.any isOperandEnd := by decide +kernel
    obtain ⟨f, hf⟩ := Option.isSome_iff_exists.1 (h.resolve_right (by simp))
    obtain ⟨hmem, hname⟩ := mem_of_get? hf
    have hf := hall f hmem
    rw [hname, String.toList_ofList, Option.any_eq_true, Option.any_eq_true] at hf
    exact hf
  | punctuation => cases hp

/-- Words and parentheses that open a group start an operand. -/
theorem Piece.Settled.starts (h : p.Settled true) (hp : p.isWord ∨ p.isOpening) :
    ∃ c ∈ p.text.head?, isOperandStart c := by
  rcases hp with hp | hp
  · exact (h.ends_of_isWord hp).1
  · rw [Piece.isOpening, beq_iff_eq] at hp
    rw [hp]
    exact ⟨'(', rfl, by decide⟩

/-- Words and parentheses that close a group end an operand. -/
theorem Piece.Settled.ends (h : p.Settled true) (hp : p.isWord ∨ p.isClosing) :
    ∃ c ∈ p.text.getLast?, isOperandEnd c := by
  rcases hp with hp | hp
  · exact (h.ends_of_isWord hp).2
  · rw [Piece.isClosing, beq_iff_eq] at hp
    rw [hp]
    exact ⟨')', rfl, by decide⟩

theorem operands_of_impliesStar (h : impliesStar true p q) :
    (p.isWord ∨ p.isClosing) ∧ (q.isWord ∨ q.isOpening) := by
  rw [impliesStar, if_pos rfl] at h
  simp only [Bool.or_eq_true, Bool.and_eq_true, beq_iff_eq] at h
  rcases h with ⟨hp, hq⟩ | ⟨hp, (hq | hq) | hq⟩
  · exact ⟨Or.inl (Piece.isWord_of_isValue hp), Or.inr hq⟩
  · exact ⟨Or.inr hp, Or.inl (Piece.isWord_of_isValue hq)⟩
  · exact ⟨Or.inr hp, Or.inl (by rw [Piece.isWord, hq]; rfl)⟩
  · exact ⟨Or.inr hp, Or.inr hq⟩

/-! ## Products -/

/-- **A text and its pieces**, with a sign between a value and the word behind it. -/
inductive Factored : List Char → List Piece → Prop
  | nil : Factored [] []
  | piece {text : List Char} {ps : List Piece} (p : Piece) : Factored text ps →
      Factored (p.text ++ text) (p :: ps)
  | product {text : List Char} {p q : Piece} {ps : List Piece} : p.isValue → q.isWord →
      Factored text (q :: ps) → Factored (p.text ++ text) (p :: .star :: q :: ps)

namespace Factored

theorem head?_eq (h : Factored text (q :: ps)) (hq : q.text ≠ []) :
    text.head? = q.text.head? := by
  cases h <;> exact List.head?_append_of_ne_nil _ hq

/-- **With the signs that are understood** the text is multiplied. -/
theorem multiplied (h : Factored text ps) (hps : ∀ p ∈ ps, p.Settled true) :
    Multiplied text (joinPieces true ps) := by
  induction h with
  | nil => exact .nil
  | @piece text ps p h ih =>
    rw [List.forall_mem_cons] at hps
    have hrest := ih hps.2
    cases ps with
    | nil =>
      have hnil := hrest.append_left p.text
      rwa [joinPieces, List.append_nil p.text] at hnil
    | cons q ps =>
      rw [joinPieces]
      split_ifs with himplied
      · obtain ⟨hp, hq⟩ := operands_of_impliesStar himplied
        have hq' := hps.2 q List.mem_cons_self
        rw [List.append_assoc]
        refine hrest.join (hps.1.ends hp) ?_
        rw [h.head?_eq hq'.isSegment.1.ne_nil]
        exact hq'.starts hq
      · rw [List.append_nil]
        exact hrest.append_left p.text
  | @product text p q ps hp hq h ih =>
    rw [List.forall_mem_cons, List.forall_mem_cons] at hps
    have hq' := hps.2.2 q List.mem_cons_self
    -- the sign of a product is a piece, and no other sign is understood next to it
    rw [joinPieces, joinPieces, (impliesStar_star p).1, (impliesStar_star q).2]
    simp only [Bool.false_eq_true, if_false, List.append_nil]
    refine (ih hps.2.2).join (hps.1.ends (Or.inl (Piece.isWord_of_isValue hp))) ?_
    rw [h.head?_eq hq'.isSegment.1.ne_nil]
    exact hq'.starts (Or.inl hq)

end Factored

/-! ## What is read is factored -/

/-- The factors of a word: all but the last are values. -/
structure Factors (word : List Char) (words : List Piece) : Prop where
  ne_nil : words ≠ []
  isWord : ∀ p ∈ words, p.isWord
  values : words.IsChain fun p _ => p.isValue
  texts : (words.map Piece.text).flatten = word

theorem Factors.of_values {values : List Piece} (hne : values ≠ [])
    (hvalues : ∀ p ∈ values, p.isValue) (htexts : (values.map Piece.text).flatten = word) :
    Factors word values where
  ne_nil := hne
  isWord p hp := Piece.isWord_of_isValue (hvalues p hp)
  values := List.Pairwise.isChain (List.pairwise_of_forall_mem_list fun p hp _ _ => hvalues p hp)
  texts := htexts

theorem text_of_readAtom {atom : List Char} (h : readAtom atom = .ok p) : p.text = atom := by
  rw [readAtom] at h
  split_ifs at h with hnumeric
  · rw [(settled_of_readConstant true hnumeric h).1]
  · cases h
    rfl

/-- The parts of a composite are all of it. -/
theorem texts_of_splitComposite (hword : ∀ c ∈ word, isWordPart c)
    (h : splitComposite word = .ok ps) : (ps.map Piece.text).flatten = word := by
  rw [map_of_mapM_eq_ok (fun _ _ => text_of_readAtom) h, List.filter_eq_self.2,
    flatten_segments]
  rintro s hs
  rw [bne_iff_ne]
  rintro rfl
  exact absurd (forall_mem_segments hword _ hs '\n' List.mem_cons_self) (by decide)

theorem factors_of_readValue (hword : ∀ c ∈ word, isWordPart c) (hne : word ≠ [])
    (h : readValue true word = .ok r) : ∃ values, (∀ p ∈ values, p.isValue) ∧
      Factors word values ∧ r.pieces = values.intersperse .star := by
  have hsingle : ∀ {p : Piece}, p.isValue → p.text = word → ∃ values,
      (∀ p ∈ values, p.isValue) ∧ Factors word values ∧ [p] = values.intersperse .star := by
    intro p hp htext
    have hvalues : ∀ q ∈ [p], q.isValue := by simpa using hp
    exact ⟨[p], hvalues, .of_values (List.cons_ne_nil _ _) hvalues (by simpa using htext), rfl⟩
  rw [readValue] at h
  split_ifs at h with hnumeric _ halgebraic
  · obtain ⟨p, hp, rfl⟩ := map_eq_ok h
    obtain ⟨rfl, -⟩ := settled_of_readConstant true hnumeric hp
    exact hsingle rfl rfl
  · cases halgebraic
  · cases h
    exact hsingle rfl rfl
  · obtain ⟨values, hatoms, rfl⟩ := map_eq_ok h
    have hvalues := fun p hp => (settled_of_splitComposite hatoms p hp).2
    have htexts := texts_of_splitComposite hword hatoms
    refine ⟨values, hvalues, .of_values ?_ hvalues htexts, rfl⟩
    rintro rfl
    exact hne htexts.symm

theorem intersperse_concat {α : Type} {l : List α} (hne : l ≠ []) (sep a : α) :
    (l ++ [a]).intersperse sep = l.intersperse sep ++ [sep, a] := by
  induction l with
  | nil => exact absurd rfl hne
  | cons b l ih =>
    cases l with
    | nil => rfl
    | cons c l =>
      rw [List.cons_append, List.cons_append, List.intersperse_cons_cons, ← List.cons_append,
        ih (List.cons_ne_nil _ _), List.intersperse_cons_cons]
      rfl

/-- A word in front of a parenthesis is a product with the function that it ends with, if any. -/
theorem factors_of_readCallee (hword : ∀ c ∈ word, isWordPart c) (hne : word ≠ [])
    (h : readCallee true word = .ok r) : ∃ words,
      Factors word words ∧ r.pieces = words.intersperse .star := by
  rw [readCallee] at h
  split at h
  · cases h
    exact ⟨[⟨.function, word⟩], ⟨List.cons_ne_nil _ _, by simp [Piece.isWord], .singleton _, by simp⟩,
      rfl⟩
  · rename_i hknown
    rw [if_pos rfl] at h
    split at h
    · rename_i name hname
      obtain ⟨value, hvalue, h⟩ := bind_eq_ok h
      cases h
      obtain ⟨front, rfl⟩ := functionEnd?_suffix hname
      -- the text in front of the function is a value, and the function the last factor
      rw [List.length_append, Nat.add_sub_cancel, List.take_left] at hvalue
      have hfront : front ≠ [] := by
        rintro rfl
        exact hknown (isKnown_of_functionEnd? hname)
      obtain ⟨values, hvalues, hfactors, hpieces⟩ := factors_of_readValue
        (fun c hc => hword c (List.mem_append_left _ hc)) hfront hvalue
      refine ⟨values ++ [⟨.function, name⟩], ⟨by simp, fun p hp => ?_, ?_, ?_⟩, ?_⟩
      · rcases List.mem_append.1 hp with hp | hp
        · exact hfactors.isWord p hp
        · rw [List.mem_singleton.1 hp]
          rfl
      · exact List.isChain_append.2 ⟨hfactors.values, .singleton _,
          fun p hp _ _ => hvalues p (List.mem_of_getLast? hp)⟩
      · rw [List.map_append, List.flatten_append, hfactors.texts]
        simp
      · rw [intersperse_concat hfactors.ne_nil, ← hpieces]
        simp [Reading.append, Reading.single]
    · obtain ⟨values, -, hfactors, hpieces⟩ := factors_of_readValue hword hne h
      exact ⟨values, hfactors, hpieces⟩

theorem Factors.factored (hwords : Factors word words) (h : Factored text ps) :
    Factored (word ++ text) (words.intersperse .star ++ ps) := by
  obtain ⟨hne, hwords, hvalues, rfl⟩ := hwords
  induction words with
  | nil => exact absurd rfl hne
  | cons p words ih =>
    rw [List.map_cons, List.flatten_cons, List.append_assoc]
    cases words with
    | nil => exact h.piece p
    | cons q words =>
      rw [List.forall_mem_cons] at hwords
      have hrest := ih (List.cons_ne_nil _ _) hwords.2 (List.isChain_cons.1 hvalues).2
      obtain ⟨rest, hcons⟩ : ∃ rest, (q :: words).intersperse .star ++ ps = q :: rest := by
        cases words <;> exact ⟨_, rfl⟩
      rw [List.intersperse_cons_cons, List.cons_append, List.cons_append, hcons]
      rw [hcons] at hrest
      exact .product ((List.isChain_cons.1 hvalues).1 q rfl) (hwords.2 q List.mem_cons_self) hrest

/-- **What is read of segments is factored.** -/
theorem factored_readSegments {ss : List (List Char)} (hcut : IsCut isWordPart ss)
    (h : readSegments true ss = .ok r) : Factored ss.flatten r.pieces := by
  induction ss generalizing r with
  | nil =>
    cases h
    exact .nil
  | cons s ss ih =>
    obtain ⟨hsegment, -, hss⟩ := IsCut.cons_iff.1 hcut
    rw [readSegments] at h
    obtain ⟨first, hfirst, h⟩ := bind_eq_ok h
    obtain ⟨rest, hrest, h⟩ := bind_eq_ok h
    cases h
    have hrest := ih hss hrest
    change Factored (s ++ ss.flatten) (first.pieces ++ rest.pieces)
    cases hrun : isRun isWordPart s with
    | false =>
      rw [readSegment_mark hrun] at hfirst
      cases hfirst
      exact hrest.piece ⟨.punctuation, s⟩
    | true =>
      have hword := hsegment.all_of_isRun hrun
      rw [readSegment_word hrun] at hfirst
      split at hfirst
      · obtain ⟨words, hwords, hpieces⟩ := factors_of_readCallee hword hsegment.ne_nil hfirst
        rw [hpieces]
        exact hwords.factored hrest
      · obtain ⟨words, -, hwords, hpieces⟩ := factors_of_readValue hword hsegment.ne_nil hfirst
        rw [hpieces]
        exact hwords.factored hrest

/-! ## Tokens that are operands -/

/-- An operand ends with the token. -/
def Token.endsOperand : Token → Bool
  | .number _ => true
  | .ident _ => true
  | .symbol s => s == .rparen

/-- An operand starts with the token. -/
def Token.startsOperand : Token → Bool
  | .number _ => true
  | .ident _ => true
  | .symbol s => s == .lparen

variable {ts : List Token} {t u : Token}

/-- A token in front of another one, which is an operand next to it only if it is called. -/
def Token.Parted (functions : List String) (t u : Token) : Prop :=
  t.endsOperand → u.startsOperand →
    ∃ f ∈ functions, Catalogue.isKnown f ∧ t = .ident f ∧ u = .symbol .lparen

/-- A token that starts an operand is a word or opens a group. -/
theorem Tokenized.exists_of_startsOperand (h : Tokenized ps ts) (hu : u ∈ ts.head?)
    (hstart : u.startsOperand) :
    ∃ q ∈ ps.head?, q.isWord ∨ q.isOpening ∧ u = .symbol .lparen := by
  cases h with
  | nil => cases hu
  | constant text => exact ⟨_, rfl, Or.inl rfl⟩
  | name text _ hrole =>
    refine ⟨_, rfl, Or.inl ?_⟩
    rcases hrole with ⟨rfl, -⟩ | ⟨rfl, -⟩ <;> rfl
  | mark _ hopen =>
    cases hu
    obtain rfl : _ = Symbol.lparen := beq_iff_eq.1 hstart
    exact ⟨_, rfl, Or.inr ⟨(isOpening_mark _).2 (hopen.1 rfl), rfl⟩⟩
  | twice _ _ hopen =>
    cases hu
    exact absurd (beq_iff_eq.1 hstart) hopen

/-- What a word is in front of: if an operand, it is a function and opens a group. -/
theorem Tokenized.called_of_startsOperand (h : Tokenized ps ts) (hp : p.Fits true ps.head?)
    (hstar : ∀ q ∈ ps.head?, impliesStar true p q = false) (hword : p.isWord) (hu : u ∈ ts.head?)
    (hstart : u.startsOperand) : p.role = .function ∧ u = .symbol .lparen := by
  obtain ⟨q, hq, hqword | ⟨hopen, hparen⟩⟩ := h.exists_of_startsOperand hu hstart
  · rw [hp.apart hword q hq] at hqword
    cases hqword
  · refine ⟨(hp.grouped hword q hq hopen).resolve_right fun himplied => ?_, hparen⟩
    rw [hstar q hq] at himplied
    cases himplied

/-- A parenthesis that closes a group is not in front of an operand. -/
theorem Tokenized.not_startsOperand (h : Tokenized ps ts) (hp : p.isClosing)
    (hstar : ∀ q ∈ ps.head?, impliesStar true p q = false) (hu : u ∈ ts.head?) :
    u.startsOperand = false := by
  refine Bool.eq_false_iff.2 fun hstart => ?_
  obtain ⟨q, hq, hq'⟩ := h.exists_of_startsOperand hu hstart
  have hnone := hstar q hq
  rw [impliesStar, if_pos rfl, hp] at hnone
  simp only [Bool.true_and, Bool.or_eq_false_iff] at hnone
  rcases hq' with hword | ⟨hopen, -⟩
  · obtain ⟨-, ⟨hvalue, hrole⟩, -⟩ := hnone
    cases hq'' : q.role <;> simp_all [Piece.isWord, Piece.isValue]
  · rw [hnone.2.2] at hopen
    cases hopen

/-- **No operand is next to another** where no sign is understood, except for a function and the
parenthesis behind it. -/
theorem Tokenized.isChain {functions : List String} (h : Tokenized ps ts) (hfitted : Fitted true ps)
    (hstar : Unstarred true ps)
    (hfunctions : ∀ p ∈ ps, p.role = .function → String.ofList p.text ∈ functions) :
    ts.IsChain (Token.Parted functions) := by
  induction h with
  | nil => exact .nil
  | constant text hts ih =>
    rw [Unstarred, List.isChain_cons] at hstar
    rw [List.forall_mem_cons] at hfunctions
    refine List.isChain_cons.2 ⟨fun u hu _ hstart => ?_, ih hfitted.2 hstar.2 hfunctions.2⟩
    cases (hts.called_of_startsOperand hfitted.1 hstar.1 rfl hu hstart).1
  | @name ps ts role text hts hrole ih =>
    rw [Unstarred, List.isChain_cons] at hstar
    rw [List.forall_mem_cons] at hfunctions
    refine List.isChain_cons.2 ⟨fun u hu _ hstart => ?_, ih hfitted.2 hstar.2 hfunctions.2⟩
    have hword : (Piece.mk role text).isWord := by rcases hrole with ⟨rfl, -⟩ | ⟨rfl, -⟩ <;> rfl
    obtain ⟨hcalled, hparen⟩ := hts.called_of_startsOperand hfitted.1 hstar.1 hword hu hstart
    obtain rfl : role = .function := hcalled
    exact ⟨_, hfunctions.1 rfl, hfitted.1.settled.resolve_right (by simp), rfl, hparen⟩
  | mark hts hopen hclose ih =>
    rw [Unstarred, List.isChain_cons] at hstar
    rw [List.forall_mem_cons] at hfunctions
    refine List.isChain_cons.2 ⟨fun u hu hend hstart => ?_, ih hfitted.2 hstar.2 hfunctions.2⟩
    obtain rfl := hclose.1 (beq_iff_eq.1 hend)
    rw [hts.not_startsOperand rfl hstar.1 hu] at hstart
    cases hstart
  | twice hts hc hopen hclose ih =>
    rw [Unstarred, List.isChain_cons, List.isChain_cons] at hstar
    rw [List.forall_mem_cons, List.forall_mem_cons] at hfunctions
    -- a token of two marks closes no group
    refine List.isChain_cons.2 ⟨fun u _ hend => ?_, ih hfitted.2.2 hstar.2.2 hfunctions.2.2⟩
    exact absurd (beq_iff_eq.1 hend) hclose

/-- **Implicit multiplication is complete and adds nothing else.** In algebraic notation canonical
text is the text with signs between operands, and the runs of several signs in it are those of the
text. No token that ends an operand is in front of one that starts an operand, except for the name
of a function in front of a parenthesis. -/
theorem classify_multiplied {text canonical : List Char} {names : Classification}
    (hplain : ∀ c ∈ text, isPlain c) (h : classify true text = .ok (canonical, names)) :
    Multiplied text canonical ∧
      (runs isSign canonical).filter (2 ≤ ·.length) = (runs isSign text).filter (2 ≤ ·.length) ∧
      ∃ ls, lexemes (String.ofList canonical) = .ok ls ∧
        (ls.map Lexeme.token).IsChain (Token.Parted names.functions) := by
  rw [classify] at h
  obtain ⟨r, hread, h⟩ := bind_eq_ok h
  dsimp only at h
  split at h
  · cases h
  · cases h
    have hfitted := fitted_of_readSegments hplain hread
    have hfactored := factored_readSegments (isCut_segments isWordPart text) hread
    rw [flatten_segments] at hfactored
    have hmultiplied := hfactored.multiplied hfitted.settled
    obtain ⟨ts, hlexes, hts⟩ :=
      exists_tokenized hfitted.starred (unstarred_starred true r.pieces)
    obtain ⟨ls, hls, rfl⟩ := hlexes 0
    refine ⟨hmultiplied, hmultiplied.runs_eq, ls, ?_, ?_⟩
    · rw [joinPieces_eq, lexemes, String.toList_ofList]
      exact hls
    · refine hts.isChain hfitted.starred (unstarred_starred true r.pieces) fun p hp hrole => ?_
      have hmem : p ∈ r.pieces.filter (·.role == .function) := by
        rw [← filter_starred .function (by decide) true]
        exact List.mem_filter.2 ⟨hp, beq_iff_eq.2 hrole⟩
      exact List.mem_eraseDups.2 (List.mem_map_of_mem hmem)

/-- Composites, a function behind a value, and groups side by side; two signs stay two. -/
theorem classify_multiplied_mixed :
    Multiplied "2xsin(y)(a+1)b**.5c".toList "2*x*sin(y)*(a+1)*b**.5*c".toList ∧
      ∃ ls, lexemes "2*x*sin(y)*(a+1)*b**.5*c" = .ok ls ∧
        (ls.map Lexeme.token).IsChain (Token.Parted ["sin"]) := by
  have h : classify true "2xsin(y)(a+1)b**.5c".toList = .ok ("2*x*sin(y)*(a+1)*b**.5*c".toList,
      ⟨["x", "y", "a", "b", "c"], ["2", "1", ".5"], ["sin"], ["2x", ".5c"]⟩) := by
    decide +kernel
  have hplain : "2xsin(y)(a+1)b**.5c".toList.all isPlain := by decide +kernel
  obtain ⟨hmultiplied, -, ls, hls, hchain⟩ := classify_multiplied (List.all_eq_true.1 hplain) h
  rw [String.ofList_toList] at hls
  exact ⟨hmultiplied, ls, hls, hchain⟩

end NodeFormula
