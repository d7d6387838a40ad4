import NodeFormula.Proofs.Formula.Inside
/-!
# NodeFormula — exponents and calls agree on names

The base of an exponent and the call that a formula is read as are found apart, in characters of
different classes and at different stages. Both take the longest end of the text that is the name
of a function (`functionEnd?_rtakeWhile`). So the exponent of a group raises the call that the
group belongs to, and what is written is read as that call again (`power_of_call`).
-/

namespace NodeFormula

variable {algebraic : Bool} {word : List Char} {r : Reading}

/-! ## The function that is read -/

theorem mem_of_mem_intersperse {α : Type} {a sep : α} {l : List α} (h : a ∈ l.intersperse sep) :
    a ∈ l ∨ a = sep := by
  induction l with
  | nil => exact Or.inl h
  | cons b l ih =>
    cases l with
    | nil => exact Or.inl h
    | cons c l =>
      rw [List.intersperse_cons_cons, List.mem_cons, List.mem_cons] at h
      rcases h with rfl | rfl | h
      · exact Or.inl List.mem_cons_self
      · exact Or.inr rfl
      · exact (ih h).imp_left (List.mem_cons_of_mem _)

/-- A value has no function in it. -/
theorem role_of_readValue (h : readValue algebraic word = .ok r) :
    ∀ q ∈ r.pieces, q.role ≠ .function := by
  rw [readValue] at h
  split_ifs at h with hnumeric
  · obtain ⟨p, hp, rfl⟩ := map_eq_ok h
    obtain ⟨rfl, -⟩ := settled_of_readConstant algebraic hnumeric hp
    simp
  · cases h
    simp [Reading.single]
  · cases h
    simp [Reading.single]
  · obtain ⟨atoms, hatoms, rfl⟩ := map_eq_ok h
    intro q hq
    rcases mem_of_mem_intersperse hq with hq | rfl
    · have hvalue := (settled_of_splitComposite hatoms q hq).2
      rintro hrole
      simp [Piece.isValue, hrole] at hvalue
    · simp [Piece.star]

/-- **The function that is read** in front of a parenthesis is the one that the word ends with. -/
theorem pieces_of_readCallee (h : readCallee true word = .ok r) : ∃ values : List Piece,
    (∀ q ∈ values, q.role ≠ .function) ∧
      r.pieces = values ++ (functionEnd? word).toList.map (Piece.mk .function) := by
  rw [readCallee] at h
  split at h
  · rename_i hknown
    have hend : functionEnd? word = some word :=
      functionEnd?_eq_some_iff.2 ⟨List.suffix_refl _, hknown, fun s hs _ => hs.length_le⟩
    cases h
    exact ⟨[], List.forall_mem_nil _, by rw [hend]; rfl⟩
  · rw [if_pos rfl] at h
    split at h
    · rename_i name hname
      obtain ⟨value, hvalue, h⟩ := bind_eq_ok h
      cases h
      refine ⟨value.pieces ++ [.star], fun q hq => ?_, by rw [hname]; rfl⟩
      rcases List.mem_append.1 hq with hq | hq
      · exact role_of_readValue hvalue q hq
      · rw [List.mem_singleton.1 hq]
        decide
    · rename_i hnone
      exact ⟨r.pieces, role_of_readValue h, by rw [hnone]; exact (List.append_nil _).symm⟩

/-! ## Readings and numbers around a call -/

variable {s : List Char} {ss ts : List (List Char)} {before : Option Char} {c : Char}

/-- **A mark parts what is read**: what stands before it is read as in front of it. -/
theorem readSegments_append_mark (hs : isRun isWordPart s = false)
    (ss ts : List (List Char)) : readSegments algebraic (ss ++ s :: ts) = do
      let a ← readSegments algebraic (ss ++ [s])
      let b ← readSegments algebraic ts
      return a.append b := by
  induction ss with
  | nil =>
    rw [List.nil_append, List.nil_append, readSegments, readSegments, readSegment_mark hs,
      readSegment_mark hs]
    rfl
  | cons t ss ih =>
    -- a segment is read by what it is and the next one, and the mark is the last of these
    have hhead : (ss ++ s :: ts).head? = (ss ++ [s]).head? := by cases ss <;> rfl
    rw [List.cons_append, List.cons_append, readSegments, readSegments, hhead, ih]
    cases readSegment algebraic t (ss ++ [s]).head? with
    | error e => rfl
    | ok first =>
      cases readSegments algebraic (ss ++ [s]) with
      | error e => rfl
      | ok a =>
        cases readSegments algebraic ts with
        | error e => rfl
        | ok b =>
          change Except.ok (first.append (a.append b)) = .ok ((first.append a).append b)
          simp only [Reading.append, List.append_assoc]

/-- **A function between parentheses is read as one**, if there is a function. -/
theorem readSegments_call {called : Option (List Char)}
    (hcalled : ∀ name ∈ called, Catalogue.isKnown (String.ofList name)) (x y : List Char) :
    readSegments algebraic (segments isWordPart (x ++ '(' :: called.getD [] ++ '(' :: y)) = do
      let a ← readSegments algebraic (segments isWordPart (x ++ ['(']))
      let b ← readSegments algebraic (segments isWordPart ('(' :: y))
      return (a.append ⟨called.toList.map (Piece.mk .function), []⟩).append b := by
  have hparen : isWordPart '(' = false := by decide
  have hsegments : segments isWordPart (called.getD []) = called.toList := by
    cases called with
    | none => rfl
    | some name =>
      have hname := isName_of_isKnown (hcalled name rfl)
      have hcut : IsCut isWordPart [name] := IsCut.cons_iff.2
        ⟨Or.inl ⟨ne_nil_of_isKnown (hcalled name rfl), hname.isWordPart⟩, by simp, .nil⟩
      simpa using segments_flatten hcut
  have hread : readSegments algebraic (called.toList ++ segments isWordPart ('(' :: y)) = do
      let b ← readSegments algebraic (segments isWordPart ('(' :: y))
      return (Reading.mk (called.toList.map (Piece.mk .function)) []).append b := by
    cases called with
    | none =>
      simp only [Option.toList_none, List.nil_append]
      cases readSegments algebraic (segments isWordPart ('(' :: y)) <;> rfl
    | some name =>
      have hrun : isRun isWordPart name = true := by
        obtain ⟨c, r, rfl, hc, -⟩ := isName_of_isKnown (hcalled name rfl)
        exact (isName_of_isKnown (hcalled _ rfl)).isWordPart c List.mem_cons_self
      have hnext : (segments isWordPart ('(' :: y)).head? = some ['('] :=
        congrArg List.head? (segments_append_cons hparen [] y)
      have hcallee : readSegment algebraic name (some ['(']) = .ok (.single .function name) := by
        rw [readSegment_word hrun, if_pos rfl, readCallee, if_pos (hcalled name rfl)]
      change readSegments algebraic (name :: segments isWordPart ('(' :: y)) = _
      rw [readSegments, hnext, hcallee]
      rfl
  have htail : segments isWordPart (called.getD [] ++ '(' :: y) =
      called.toList ++ segments isWordPart ('(' :: y) := by
    rw [segments_append_cons hparen, hsegments]
    exact congrArg _ (segments_append_cons hparen [] y).symm
  have hopening : segments isWordPart (x ++ ['(']) = segments isWordPart x ++ [['(']] :=
    segments_append_cons hparen x []
  rw [List.append_assoc, List.cons_append, segments_append_cons hparen, htail,
    readSegments_append_mark (s := ['(']) hparen, hread, hopening]
  cases readSegments algebraic (segments isWordPart x ++ [['(']]) with
  | error e => rfl
  | ok a =>
    cases readSegments algebraic (segments isWordPart ('(' :: y)) with
    | error e => rfl
    | ok b =>
      change Except.ok (a.append (Reading.append _ b)) = .ok ((a.append _).append b)
      simp only [Reading.append, List.append_assoc]

/-- What is written for symbols in front of a character does not depend on what follows it. -/
theorem spellConstants_append (hc : irrational? c = none) (before : Option Char) (a : List Char) :
    ∃ x, ∀ b, spellConstants before (a ++ c :: b) = x ++ c :: spellConstants (some c) b := by
  induction a generalizing before with
  | nil =>
    refine ⟨[], fun b => ?_⟩
    rw [List.nil_append, List.nil_append, spellConstants, hc]
  | cons d a ih =>
    cases hd : irrational? d with
    | none =>
      obtain ⟨x, hx⟩ := ih (some d)
      refine ⟨d :: x, fun b => ?_⟩
      rw [List.cons_append, spellConstants, hd]
      exact congrArg _ (hx b)
    | some k =>
      -- whether a sign follows the number is up to the next character, at most `c`
      obtain ⟨number, hnumber⟩ : ∃ number, ∀ b, spellConstants before (d :: a ++ c :: b) = number ++
          if (a.head?.or (some c)).any fun n => isOperandPart n || n == '('
            then '*' :: spellConstants (some '*') (a ++ c :: b)
            else spellConstants k.literal.toList.getLast? (a ++ c :: b) := by
        refine ⟨(if before.any fun b => isOperandPart b || b == ')' then ['*'] else []) ++
          k.literal.toList, fun b => ?_⟩
        rw [List.cons_append, spellConstants, hd, List.head?_append]
        rfl
      cases hclosing : (a.head?.or (some c)).any fun n => isOperandPart n || n == '(' with
      | true =>
        obtain ⟨x, hx⟩ := ih (some '*')
        refine ⟨number ++ '*' :: x, fun b => ?_⟩
        rw [hnumber, hclosing, if_pos rfl, hx, List.append_assoc, List.cons_append]
      | false =>
        obtain ⟨x, hx⟩ := ih k.literal.toList.getLast?
        refine ⟨number ++ x, fun b => ?_⟩
        rw [hnumber, hclosing, if_neg Bool.false_ne_true, hx, List.append_assoc]

theorem spellConstants_append_self {x : List Char} (hx : ∀ d ∈ x, irrational? d = none)
    (hc : irrational? c = none) (before : Option Char) (b : List Char) :
    spellConstants before (x ++ c :: b) = x ++ c :: spellConstants (some c) b := by
  induction x generalizing before with
  | nil => rw [List.nil_append, spellConstants, hc]; rfl
  | cons d x ih =>
    rw [List.forall_mem_cons] at hx
    rw [List.cons_append, spellConstants, hx.1]
    exact congrArg _ (ih hx.2 _)

/-- Numbers in the place of symbols keep the call. -/
theorem readSegments_spelled_call {called : Option (List Char)}
    (hcalled : ∀ name ∈ called, Catalogue.isKnown (String.ofList name)) (ahead rest : List Char) :
    readSegments algebraic
      (segments isWordPart (spellConstants none (ahead ++ '(' :: called.getD [] ++ '(' :: rest))) = do
        let a ← readSegments algebraic (segments isWordPart (spellConstants none (ahead ++ ['('])))
        let b ← readSegments algebraic (segments isWordPart (spellConstants none ('(' :: rest)))
        return (a.append ⟨called.toList.map (Piece.mk .function), []⟩).append b := by
  have hparen : irrational? '(' = none := by decide
  have hplain : ∀ c ∈ called.getD [], irrational? c = none := by
    cases called with
    | none => exact List.forall_mem_nil _
    | some name =>
      intro c hc
      have hpart := (isName_of_isKnown (hcalled name rfl)).isWordPart c hc
      exact (not_special_of_isPlain (by rw [isPlain, hpart]; rfl)).2
  obtain ⟨x, hx⟩ := spellConstants_append hparen none ahead
  have hspelled : spellConstants none (ahead ++ '(' :: called.getD [] ++ '(' :: rest) =
      x ++ '(' :: called.getD [] ++ '(' :: spellConstants (some '(') rest := by
    rw [List.append_assoc, List.cons_append, hx, spellConstants_append_self hplain hparen,
      List.append_assoc]
    rfl
  have hrest : spellConstants none ('(' :: rest) = '(' :: spellConstants (some '(') rest :=
    spellConstants_append_self (List.forall_mem_nil _) hparen none rest
  rw [hspelled, readSegments_call hcalled, hx, hrest]
  rfl

/-! ## The power of a call -/

theorem isWordPart_of_functionEnd? (cs : List Char) :
    ∀ c ∈ (functionEnd? cs).getD [], isWordPart c := by
  cases hend : functionEnd? cs with
  | none => exact List.forall_mem_nil _
  | some name => exact (isName_of_isKnown (isKnown_of_functionEnd? hend)).isWordPart

/-- A group with its exponent as a power, and the parenthesis that closes the power. -/
def groupPower (group exponent : List Char) : List Char :=
  '(' :: group ++ ')' :: '*' :: '*' :: exponent.filterMap superscript? ++ [')']

/-- What is in the parentheses of the power. -/
theorem balanced_call {name group exponent : List Char} (hname : ∀ c ∈ name, isWordPart c)
    (hgroup : Balanced group) (hall : ∀ d ∈ exponent, isSuperscript d) :
    Balanced (name ++ ('(' :: group ++ [')']) ++ '*' :: '*' :: exponent.filterMap superscript?) := by
  refine .append (.append (.of_forall fun c hc => ?_) hgroup.group) (.of_forall ?_)
  · exact ne_paren_of_isOperandPart (by rw [isOperandPart, hname c hc]; rfl)
  · have hdigits := (isDigit_of_forall₂ (forall₂_filterMap hall)).2
    simp only [List.forall_mem_cons]
    refine ⟨by decide, by decide, fun d hd => ?_⟩
    constructor <;> (rintro rfl; exact absurd (hdigits _ hd) (by decide))

/-- **An exponent of a group raises the call** of the function in front of it. -/
theorem appendSegment_call {p group exponent : List Char} (hgroup : Balanced group)
    (hexponent : exponent ≠ []) (hall : ∀ d ∈ exponent, isSuperscript d) : ∃ front,
      p = front ++ (functionEnd? p).getD [] ∧
      appendSegment true (p ++ '(' :: group ++ [')']).reverse exponent =
        .ok (front ++ '(' :: (functionEnd? p).getD [] ++ groupPower group exponent).reverse := by
  obtain ⟨c, run, rfl⟩ := List.exists_cons_of_ne_nil hexponent
  have hend : (functionEnd? p).getD [] <:+ p := by
    cases hname : functionEnd? p with
    | none => exact List.nil_suffix
    | some name => exact functionEnd?_suffix hname
  obtain ⟨front, hp⟩ := hend
  refine ⟨front, hp.symm, ?_⟩
  have hrun : functionSuffix? true (p.reverse.takeWhile isNamePart).reverse = functionEnd? p :=
    functionEnd?_rtakeWhile (fun _ => id) p
  have htake : p.reverse.take ((functionEnd? p).getD []).length =
        ((functionEnd? p).getD []).reverse ∧
      p.reverse.drop ((functionEnd? p).getD []).length = front.reverse := by
    generalize (functionEnd? p).getD [] = name at hp
    rw [← hp, List.reverse_append]
    exact ⟨List.take_left' (List.length_reverse ..), List.drop_left' (List.length_reverse ..)⟩
  have hbase : splitBase? true (p ++ '(' :: group ++ [')']).reverse = some
      (((functionEnd? p).getD [] ++ '(' :: group ++ [')']).reverse, front.reverse) := by
    have hreverse : (p ++ '(' :: group ++ [')']).reverse =
        ')' :: (group.reverse ++ '(' :: p.reverse) := by simp
    rw [hreverse, splitBase?, if_pos rfl, splitGroup?_balanced hgroup]
    simp only [Option.map_some, hrun, htake]
    simp
  rw [appendSegment, if_pos (hall c List.mem_cons_self), hbase]
  simp [openPower, groupPower]

/-- A group behind text without superscripts is written as it is on its own. -/
theorem foldlM_call {p inner : List Char} (hp : ∀ c ∈ p, isSuperscript c = false)
    (hinner : Balanced inner) :
    (segments isSuperscript (p ++ '(' :: inner ++ [')'])).foldlM (appendSegment algebraic) [] =
      (writeExponents algebraic inner).map fun group => (p ++ '(' :: group ++ [')']).reverse := by
  have hopen : isSuperscript '(' = false := by decide
  have hclose : isSuperscript ')' = false := by decide
  have hmark : ∀ {c done}, isSuperscript c = false →
      appendSegment algebraic done [c] = .ok (c :: done) := fun hc => by
    rw [appendSegment, hc, if_neg Bool.false_ne_true]
    rfl
  have hfront : (segments isSuperscript p).foldlM (appendSegment algebraic) [] = .ok p.reverse := by
    obtain ⟨done, hdone, rfl⟩ := map_eq_ok (writeExponents_eq_self hp)
    rw [List.reverse_reverse]
    exact hdone
  have hinside : (segments isSuperscript inner).foldlM (appendSegment algebraic) ('(' :: p.reverse) =
      ((segments isSuperscript inner).foldlM (appendSegment algebraic) []).map
        (· ++ '(' :: p.reverse) := by
    have hstart : Powered algebraic [] ([] : List Char).reverse := .nil
    have hopened : openGroups 0 ([] ++ (segments isSuperscript inner).flatten) = some 0 := by
      rwa [List.nil_append, flatten_segments]
    exact foldlM_inside hstart (isCut_segments _ _) (by simp) hopened p.reverse
  rw [List.append_assoc, List.cons_append, segments_append_cons hopen, segments_append_cons hclose,
    List.foldlM_append, bind_of_ok hfront, List.foldlM_cons, bind_of_ok (hmark hopen),
    List.foldlM_append, hinside, writeExponents]
  cases (segments isSuperscript inner).foldlM (appendSegment algebraic) [] with
  | error e => rfl
  | ok done =>
    change List.foldlM (appendSegment algebraic) (done ++ '(' :: p.reverse)
      ([')'] :: segments isSuperscript []) = .ok (p ++ '(' :: done.reverse ++ [')']).reverse
    rw [List.foldlM_cons, bind_of_ok (hmark hclose)]
    simp [segments]
    rfl

/-- **The power of a call** is written whatever goes on behind it, and stays as it is written. -/
theorem writeExponents_call {p inner exponent : List Char}
    (hp : ∀ c ∈ p, isSuperscript c = false) (hinner : Balanced inner) (hexponent : exponent ≠ [])
    (hall : ∀ c ∈ exponent, isSuperscript c) {back written : List Char}
    (hback : ∀ c ∈ back.head?, isSuperscript c = false)
    (h : writeExponents true (p ++ '(' :: inner ++ [')'] ++ exponent ++ back) = .ok written) :
    ∃ front group ahead behind, p = front ++ (functionEnd? p).getD [] ∧
      writeExponents true inner = .ok group ∧
      writeExponents true (p ++ '(' :: inner ++ [')'] ++ exponent) =
        .ok (front ++ '(' :: (functionEnd? p).getD [] ++ groupPower group exponent) ∧
      written = ahead ++ '(' :: (functionEnd? p).getD [] ++ groupPower group exponent ++ behind ∧
      front.Sublist ahead := by
  have hclose : isSuperscript ')' = false := by decide
  have hsegments : ∀ {b}, (∀ c ∈ b.head?, isSuperscript c = false) →
      segments isSuperscript (p ++ '(' :: inner ++ [')'] ++ exponent ++ b) =
        segments isSuperscript (p ++ '(' :: inner ++ [')']) ++
          exponent :: segments isSuperscript b := fun hb =>
    (segments_eq_append_cons_iff hexponent hall).2
      ⟨_, _, rfl, rfl, rfl, by rw [List.getLast?_concat]; simp [hclose], hb⟩
  obtain ⟨final, hfinal, rfl⟩ := map_eq_ok h
  rw [hsegments hback, List.foldlM_append, foldlM_call hp hinner] at hfinal
  obtain ⟨called, hcalled, hfinal⟩ := bind_eq_ok hfinal
  obtain ⟨group, hgroup, rfl⟩ := map_eq_ok hcalled
  have hbalanced : Balanced group := by
    rw [Balanced, (powered_of_writeExponents hgroup).openGroups]
    exact hinner
  obtain ⟨front, hp', hpower⟩ := appendSegment_call (p := p) hbalanced hexponent hall
  rw [List.foldlM_cons, bind_of_ok hpower] at hfinal
  have hraised : (front ++ '(' :: (functionEnd? p).getD [] ++
      groupPower group exponent).reverse.reverse = front ++ '(' :: ((functionEnd? p).getD [] ++
        ('(' :: group ++ [')']) ++ '*' :: '*' :: exponent.filterMap superscript?) ++ ')' :: [] := by
    simp [groupPower]
  -- the power is a group, and what goes on behind it leaves a group as it is
  obtain ⟨ahead, behind, hbehind, hahead⟩ := foldlM_group
    (balanced_call (isWordPart_of_functionEnd? p) hbalanced hall) hraised
    (isCut_segments _ _).segment hfinal
  refine ⟨front, group, ahead, behind, hp', hgroup, ?_, by rw [hbehind]; simp [groupPower], hahead⟩
  have hnil := hsegments (b := []) (by simp)
  rw [List.append_nil] at hnil
  rw [writeExponents, hnil, List.foldlM_append, foldlM_call hp hinner, hgroup]
  change (List.foldlM (appendSegment true) _ (exponent :: segments isSuperscript [])).map _ = _
  rw [List.foldlM_cons, bind_of_ok hpower]
  change Except.ok (List.reverse (List.reverse _)) = _
  rw [List.reverse_reverse]

/-- **Exponents and calls agree on the names of functions.** The function is the longest end of the
text in front of a group, whichever class of characters is searched, and the one that is read. An
exponent of the group raises the call of that function, wherever the text goes on; with numbers
for symbols, what is written is read as a call of it in the same place. -/
theorem power_of_call (p : List Char) :
    functionSuffix? true (p.rtakeWhile isNamePart) = functionEnd? (p.rtakeWhile isWordPart) ∧
    (∀ name, functionEnd? (p.rtakeWhile isWordPart) = some name ↔
      name <:+ p ∧ Catalogue.isKnown (String.ofList name) ∧
        ∀ s, s <:+ p → Catalogue.isKnown (String.ofList s) → s.length ≤ name.length) ∧
    (∀ r, readCallee true (p.rtakeWhile isWordPart) = .ok r → ∃ values : List Piece,
      (∀ q ∈ values, q.role ≠ .function) ∧
        r.pieces = values ++ (functionEnd? p).toList.map (Piece.mk .function)) ∧
    ∀ inner exponent back written, (∀ c ∈ p, isSuperscript c = false) → Balanced inner →
      exponent ≠ [] → (∀ c ∈ exponent, isSuperscript c) →
      (∀ c ∈ back.head?, isSuperscript c = false) →
      writeExponents true (p ++ '(' :: inner ++ [')'] ++ exponent ++ back) = .ok written →
      ∃ front group ahead behind, p = front ++ (functionEnd? p).getD [] ∧
        writeExponents true inner = .ok group ∧
        writeExponents true (p ++ '(' :: inner ++ [')'] ++ exponent) =
          .ok (front ++ '(' :: (functionEnd? p).getD [] ++ groupPower group exponent) ∧
        written = ahead ++ '(' :: (functionEnd? p).getD [] ++ groupPower group exponent ++ behind ∧
        front.Sublist ahead ∧
        readSegments true (segments isWordPart (spellConstants none written)) = do
          let a ← readSegments true (segments isWordPart (spellConstants none (ahead ++ ['('])))
          let b ← readSegments true (segments isWordPart
            (spellConstants none (groupPower group exponent ++ behind)))
          return (a.append ⟨(functionEnd? p).toList.map (Piece.mk .function), []⟩).append b := by
  have hword : functionEnd? (p.rtakeWhile isWordPart) = functionEnd? p :=
    functionEnd?_rtakeWhile (fun c hc => by rw [isWordPart, hc]; rfl) p
  have hname : functionSuffix? true (p.rtakeWhile isNamePart) = functionEnd? p :=
    functionEnd?_rtakeWhile (fun _ => id) p
  refine ⟨by rw [hword, hname], fun name => by rw [hword, functionEnd?_eq_some_iff], fun r hr => ?_, ?_⟩
  · rw [← hword]
    exact pieces_of_readCallee hr
  intro inner exponent back written hp hinner hexponent hall hback hwritten
  obtain ⟨front, group, ahead, behind, hp', hgroup, hpower, hbehind, hahead⟩ :=
    writeExponents_call hp hinner hexponent hall hback hwritten
  refine ⟨front, group, ahead, behind, hp', hgroup, hpower, hbehind, hahead, ?_⟩
  have hcall : written = ahead ++ '(' :: (functionEnd? p).getD [] ++ '(' :: (group ++
      ')' :: '*' :: '*' :: exponent.filterMap superscript? ++ [')'] ++ behind) := by
    rw [hbehind]
    simp [groupPower]
  rw [hcall, readSegments_spelled_call fun name hname => isKnown_of_functionEnd? hname]
  rfl

/-- The exponent of a call of `asin`, a name that ends in another one. -/
theorem power_of_call_asin :
    functionEnd? "2.asin".toList = some "asin".toList ∧
      writeExponents true "2.asin(x²)³+y".toList = .ok "2.(asin((x**2))**3)+y".toList ∧
      ∃ front ahead, "2.asin".toList = front ++ "asin".toList ∧ front.Sublist ahead := by
  have hend : functionEnd? "2.asin".toList = some "asin".toList := by decide +kernel
  have hwritten : writeExponents true "2.asin(x²)³+y".toList = .ok "2.(asin((x**2))**3)+y".toList := by
    decide +kernel
  have hcalled : "2.asin".toList.all isPlain := by decide +kernel
  have hraised : "³".toList.all isSuperscript := by decide +kernel
  have hback : "+y".toList.all isPlain := by decide +kernel
  have hplain : ∀ {c}, isPlain c → isSuperscript c = false := fun hc => (not_special_of_isPlain hc).1
  obtain ⟨front, group, ahead, behind, hp, -, -, -, hahead, -⟩ :=
    (power_of_call "2.asin".toList).2.2.2 "x²".toList "³".toList "+y".toList _
      (fun c hc => hplain (List.all_eq_true.1 hcalled c hc)) (by decide) (by decide)
      (List.all_eq_true.1 hraised)
      (fun c hc => hplain (List.all_eq_true.1 hback c (List.mem_of_head? hc))) hwritten
  rw [hend] at hp
  exact ⟨hend, hwritten, front, ahead, hp, hahead⟩

end NodeFormula
