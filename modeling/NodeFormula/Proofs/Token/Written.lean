import NodeFormula.Proofs.Text.Bytes
import NodeFormula.Token.Lexer
/-!
# NodeFormula — tokens are read back from their texts

`Token.Written` says which tokens the lexer returns: any symbol, a numeral and a name of the
right characters. Conversely the text of such a token is read as that token, if what stands
behind it does not make it longer. `Lexes` collects this over a whole text.
-/

namespace NodeFormula

/-! ## Words -/

/-- Digits with perhaps a point among them; the point alone is no numeral. -/
def IsNumeral (cs : List Char) : Prop :=
  ∃ whole places, (∀ c ∈ whole, c.isDigit) ∧ (∀ c ∈ places, c.isDigit) ∧
    (cs = whole ∧ whole ≠ [] ∨ cs = whole ++ '.' :: places ∧ (whole ≠ [] ∨ places ≠ []))

/-- A letter or an underscore, and then letters, digits and underscores. -/
def IsName (cs : List Char) : Prop :=
  ∃ c r, cs = c :: r ∧ isNameStart c ∧ ∀ x ∈ r, isNamePart x

/-- What a token is read by: the pattern of a symbol, that of numerals or that of names. -/
inductive TokenPattern where
  | symbol (s : Symbol)
  | numeral
  | name
  deriving DecidableEq, Repr

/-- A pattern matches a text. -/
def TokenPattern.Matches : TokenPattern → List Char → Prop
  | symbol s, cs => cs = s.pattern.toList
  | numeral, cs => IsNumeral cs
  | name, cs => IsName cs

/-- A token as the lexer returns it. -/
def Token.Written : Token → Prop
  | symbol _ => True
  | number text => IsNumeral text.toList
  | ident name => IsName name.toList

/-- What a pattern matches is the text of a token. -/
theorem TokenPattern.Matches.exists_written {p : TokenPattern} {cs : List Char} (h : p.Matches cs) :
    ∃ t : Token, t.Written ∧ cs = t.text.toList := by
  cases p with
  | symbol s => exact ⟨.symbol s, trivial, by rw [Token.text, Symbol.text_eq_pattern, h]⟩
  | numeral =>
    refine ⟨.number (String.ofList cs), ?_, (String.toList_ofList).symm⟩
    rwa [Token.Written, String.toList_ofList]
  | name =>
    refine ⟨.ident (String.ofList cs), ?_, (String.toList_ofList).symm⟩
    rwa [Token.Written, String.toList_ofList]

theorem mem_takeWhile {p : Char → Bool} {cs : List Char} {c : Char} (h : c ∈ cs.takeWhile p) :
    p c :=
  List.all_eq_true.1 List.all_takeWhile c h

theorem isNumeral_of_scanNumber {cs text r : List Char} (h : scanNumber cs = some (text, r)) :
    IsNumeral text := by
  unfold scanNumber at h
  dsimp only at h
  split at h
  · rename_i rest hrest
    split at h
    · cases h
    · rename_i hsome
      cases h
      refine ⟨_, _, fun c => mem_takeWhile, fun c => mem_takeWhile, .inr ⟨rfl, ?_⟩⟩
      rw [Bool.and_eq_true, List.isEmpty_iff, List.isEmpty_iff] at hsome
      exact Decidable.not_and_iff_or_not.1 hsome
  · split at h
    · cases h
    · rename_i hsome
      cases h
      refine ⟨_, [], fun c => mem_takeWhile, List.forall_mem_nil _, .inl ⟨rfl, ?_⟩⟩
      simpa using hsome

theorem isName_of_scanName {cs name r : List Char} (h : scanName cs = some (name, r)) :
    IsName name := by
  unfold scanName at h
  split at h
  · cases h
  · rename_i c rest
    split at h
    · rename_i hstart
      cases h
      exact ⟨c, _, rfl, hstart, fun x => mem_takeWhile⟩
    · cases h

theorem written_of_scan {cs r : List Char} {t : Token} (h : scan cs = some (t, r)) : t.Written := by
  unfold scan at h
  split at h
  · cases h
    trivial
  · split at h
    · rename_i hnumber
      cases h
      rw [Token.Written, String.toList_ofList]
      exact isNumeral_of_scanNumber hnumber
    · obtain ⟨⟨name, rest⟩, hname, heq⟩ := Option.map_eq_some_iff.1 h
      cases heq
      rw [Token.Written, String.toList_ofList]
      exact isName_of_scanName hname

/-- **What holds of every token that is read holds of all tokens of a text.** -/
theorem forall_lexemes {P : Token → Prop} (hscan : ∀ cs t r, scan cs = some (t, r) → P t)
    {source : String} {ls : List Lexeme} (h : lexemes source = .ok ls) :
    ∀ l ∈ ls, P l.token := by
  have hfrom : ∀ (offset : Nat) (cs : List Char) (ls : List Lexeme),
      lexemesFrom offset cs = .ok ls → ∀ l ∈ ls, P l.token := by
    intro offset cs
    fun_induction lexemesFrom offset cs with
    | case1 offset =>
      intro ls h
      cases h
      exact List.forall_mem_nil _
    | case2 offset c r hgap ih => exact ih
    | case3 offset c r hgap hnone =>
      intro ls h
      cases h
    | case4 offset c r hgap t rest hread stop ls' hls ih =>
      intro ls h
      cases h
      exact List.forall_mem_cons.2 ⟨hscan _ _ _ hread, ih ls' hls⟩
    | case5 offset c r hgap t rest hread stop err herr ih =>
      intro ls h
      cases h
  exact hfrom 0 source.toList ls h

/-! ## Symbols -/

namespace Symbol

theorem mem_all (s : Symbol) : s ∈ all := by
  cases s <;> decide

theorem text_inj {s s' : Symbol} (h : s.text = s'.text) : s = s' := by
  have hall : ∀ s ∈ all, ∀ s' ∈ all, s.text = s'.text → s = s' := by decide
  exact hall s s.mem_all s' s'.mem_all h

theorem ofText?_eq_some {text : String} {s : Symbol} : ofText? text = some s ↔ s.text = text := by
  constructor
  · intro h
    rw [text_eq_pattern]
    simpa using List.find?_some h
  · rintro rfl
    have hsome : (ofText? s.text).isSome := by
      rw [ofText?, List.find?_isSome]
      exact ⟨s, s.mem_all, by simp [text_eq_pattern]⟩
    obtain ⟨s', hs'⟩ := Option.isSome_iff_exists.1 hsome
    have htext : s'.text = s.text := by
      rw [text_eq_pattern]
      simpa using List.find?_some hs'
    rw [hs', text_inj htext]

theorem ofText?_ofList {cs : List Char} {s : Symbol} :
    ofText? (String.ofList cs) = some s ↔ s.text.toList = cs := by
  rw [ofText?_eq_some, ← String.toList_inj, String.toList_ofList]

/-- Symbols that open no longer one, among those that are written without a space behind. -/
def lone : List Symbol := [lparen, rparen, comma, minus, plus, tilde]

end Symbol

/-! ## What one step takes -/

section

variable {cs rest : List Char}

theorem eq_append_of_scanSymbol {s : Symbol} (h : scanSymbol cs = some (s, rest)) :
    cs = s.text.toList ++ rest := by
  unfold scanSymbol at h
  split at h
  · rename_i s' hs
    cases h
    rw [Symbol.ofText?_ofList.1 hs, List.take_append_drop]
  · obtain ⟨s', hs, heq⟩ := Option.map_eq_some_iff.1 h
    cases heq
    rw [Symbol.ofText?_ofList.1 hs, List.take_append_drop]

theorem eq_append_of_scanNumber {text : List Char} (h : scanNumber cs = some (text, rest)) :
    cs = text ++ rest := by
  have hcs := List.takeWhile_append_dropWhile (p := Char.isDigit) (l := cs)
  unfold scanNumber at h
  dsimp only at h
  split at h
  · rename_i r hr
    split at h
    · cases h
    · cases h
      rw [List.append_assoc, List.cons_append, List.takeWhile_append_dropWhile, ← hr, hcs]
  · split at h
    · cases h
    · cases h
      exact hcs.symm

theorem eq_append_of_scanName {name : List Char} (h : scanName cs = some (name, rest)) :
    cs = name ++ rest := by
  unfold scanName at h
  split at h
  · cases h
  · split at h
    · cases h
      rw [List.cons_append, List.takeWhile_append_dropWhile]
    · cases h

/-- **What is read is the text of the token**, and the rest follows it. -/
theorem eq_append_of_scan {t : Token} (h : scan cs = some (t, rest)) :
    cs = t.text.toList ++ rest := by
  unfold scan at h
  split at h
  · rename_i hs
    cases h
    exact eq_append_of_scanSymbol hs
  · split at h
    · rename_i hn
      cases h
      rw [Token.text, String.toList_ofList]
      exact eq_append_of_scanNumber hn
    · obtain ⟨⟨name, r⟩, hname, heq⟩ := Option.map_eq_some_iff.1 h
      cases heq
      rw [Token.text, String.toList_ofList]
      exact eq_append_of_scanName hname

theorem taken_append (cs rest : List Char) : taken (cs ++ rest) rest = cs := by
  rw [taken, List.length_append, Nat.add_sub_cancel, List.take_left]

/-- The bytes that are taken for a token are those of its text. -/
theorem byteLength_taken {t : Token} (h : scan cs = some (t, rest)) :
    byteLength (taken cs rest) = t.text.utf8ByteSize := by
  rw [eq_append_of_scan h, taken_append, byteLength_toList]

end

/-! ## One symbol -/

/-- A symbol is read if no longer one stands there. -/
theorem scanSymbol_text (s : Symbol) {rest : List Char}
    (h : ∀ c, rest.head? = some c → ∀ s' : Symbol, s'.text.toList ≠ s.text.toList ++ [c]) :
    scanSymbol (s.text.toList ++ rest) = some (s, rest) := by
  have hlen : s.text.toList.length = 1 ∨ s.text.toList.length = 2 := by
    cases s <;> decide
  unfold scanSymbol
  rcases hlen with hlen | hlen
  · -- a longer symbol would take the next character too
    cases rest with
    | nil =>
      rw [List.append_nil, List.take_of_length_le (by omega), Symbol.ofText?_ofList.2 rfl,
        List.drop_of_length_le (by omega)]
    | cons c rest =>
      have htake : (s.text.toList ++ c :: rest).take 2 = s.text.toList ++ [c] := by
        rw [List.take_append, hlen, List.take_of_length_le (by omega)]
        rfl
      have hnone : Symbol.ofText? (String.ofList (s.text.toList ++ [c])) = none := by
        rw [Option.eq_none_iff_forall_not_mem]
        intro s' hs'
        exact h c rfl s' (Symbol.ofText?_ofList.1 hs')
      rw [htake, hnone]
      dsimp only
      rw [List.take_left' hlen, List.drop_left' hlen, Symbol.ofText?_ofList.2 rfl]
      rfl
  · rw [List.take_left' hlen, List.drop_left' hlen, Symbol.ofText?_ofList.2 rfl]

/-- What opens no symbol is no symbol. -/
theorem scanSymbol_eq_none {c : Char} (h : ∀ s ∈ Symbol.all, s.text.toList.head? ≠ some c)
    (cs : List Char) : scanSymbol (c :: cs) = none := by
  have hnone : ∀ n, Symbol.ofText? (String.ofList ((c :: cs).take (n + 1))) = none := by
    intro n
    rw [Option.eq_none_iff_forall_not_mem]
    intro s hs
    refine h s s.mem_all ?_
    rw [Symbol.ofText?_ofList.1 hs]
    rfl
  unfold scanSymbol
  rw [hnone 1, hnone 0]
  rfl

theorem scanSymbol_of_word {c : Char} (h : isNamePart c ∨ c = '.') (cs : List Char) :
    scanSymbol (c :: cs) = none := by
  have hall : ∀ s ∈ Symbol.all,
      s.text.toList.head?.all (fun d => !isNamePart d && d != '.') := by decide
  refine scanSymbol_eq_none (fun s hs hhead => ?_) cs
  have hfirst := hall s hs
  rw [hhead, Option.all_some, Bool.and_eq_true, Bool.not_eq_true', bne_iff_ne] at hfirst
  obtain ⟨hpart, hpoint⟩ := hfirst
  rcases h with h | h
  · exact absurd (h.symm.trans hpart) (by decide)
  · exact hpoint h

/-! ## Reading back -/

/-- What may stand behind a word: nothing that would continue it. -/
def Apart (rest : List Char) : Prop := ∀ c, rest.head? = some c → isNamePart c = false ∧ c ≠ '.'

theorem takeWhile_append_of_head {p : Char → Bool} {cs rest : List Char} (hcs : ∀ c ∈ cs, p c)
    (hrest : ∀ c, rest.head? = some c → p c = false) :
    (cs ++ rest).takeWhile p = cs ∧ (cs ++ rest).dropWhile p = rest := by
  have hstop : rest.takeWhile p = [] ∧ rest.dropWhile p = rest := by
    cases rest with
    | nil => exact ⟨rfl, rfl⟩
    | cons c rest => simp [hrest c rfl]
  rw [List.takeWhile_append_of_pos hcs, List.dropWhile_append_of_pos hcs, hstop.1, hstop.2]
  exact ⟨List.append_nil cs, rfl⟩

theorem isNamePart_of_isDigit {c : Char} (h : c.isDigit) : isNamePart c := by
  simp [isNamePart, Char.isAlphanum, h]

theorem isNamePart_of_isNameStart {c : Char} (h : isNameStart c) : isNamePart c := by
  simp only [isNameStart, Bool.or_eq_true, beq_iff_eq] at h
  simp only [isNamePart, Char.isAlphanum, Bool.or_eq_true, beq_iff_eq]
  exact h.imp_left .inl

theorem Apart.not_isDigit {rest : List Char} (h : Apart rest) :
    ∀ c, rest.head? = some c → c.isDigit = false := by
  intro c hc
  refine Bool.eq_false_iff.2 fun hdigit => ?_
  exact absurd ((isNamePart_of_isDigit hdigit).symm.trans (h c hc).1) (by decide)

theorem scanNumber_append {cs rest : List Char} (h : IsNumeral cs) (hrest : Apart rest) :
    scanNumber (cs ++ rest) = some (cs, rest) := by
  obtain ⟨whole, places, hwhole, hplaces, ⟨rfl, hne⟩ | ⟨rfl, hne⟩⟩ := h
  · obtain ⟨htake, hdrop⟩ := takeWhile_append_of_head hwhole hrest.not_isDigit
    rw [scanNumber, htake, hdrop]
    dsimp only
    split
    · exact absurd rfl (hrest '.' rfl).2
    · rw [if_neg (by simpa using hne)]
  · have hpoint : ∀ c, ('.' :: (places ++ rest)).head? = some c → c.isDigit = false := by
      rintro c hc
      cases hc
      decide
    obtain ⟨htake, hdrop⟩ := takeWhile_append_of_head hwhole hpoint
    obtain ⟨htake', hdrop'⟩ := takeWhile_append_of_head hplaces hrest.not_isDigit
    rw [List.append_assoc, List.cons_append, scanNumber, htake, hdrop]
    dsimp only
    split
    · rename_i r hr
      cases hr
      rw [htake', hdrop', if_neg]
      rw [Bool.and_eq_true, List.isEmpty_iff, List.isEmpty_iff]
      exact Decidable.not_and_iff_or_not.2 hne
    · rename_i hother
      exact absurd rfl (hother _)

theorem IsNumeral.exists_cons {cs : List Char} (h : IsNumeral cs) :
    ∃ c r, cs = c :: r ∧ (isNamePart c ∨ c = '.') := by
  obtain ⟨whole, places, hwhole, -, ⟨rfl, hne⟩ | ⟨rfl, -⟩⟩ := h
  · obtain ⟨c, r, rfl⟩ := List.exists_cons_of_ne_nil hne
    exact ⟨c, r, rfl, .inl (isNamePart_of_isDigit (hwhole c List.mem_cons_self))⟩
  · cases whole with
    | nil => exact ⟨'.', places, rfl, .inr rfl⟩
    | cons c r => exact ⟨c, _, rfl, .inl (isNamePart_of_isDigit (hwhole c List.mem_cons_self))⟩

theorem scan_number {text : String} {rest : List Char} (h : IsNumeral text.toList)
    (hrest : Apart rest) : scan (text.toList ++ rest) = some (.number text, rest) := by
  have hsymbol : scanSymbol (text.toList ++ rest) = none := by
    obtain ⟨c, r, hcs, hc⟩ := h.exists_cons
    rw [hcs]
    exact scanSymbol_of_word hc _
  rw [scan, hsymbol, scanNumber_append h hrest]
  dsimp only
  rw [String.ofList_toList]

theorem scanNumber_of_not_isDigit {c : Char} (hdigit : c.isDigit = false) (hpoint : c ≠ '.')
    (cs : List Char) : scanNumber (c :: cs) = none := by
  rw [scanNumber, List.takeWhile_cons, List.dropWhile_cons, hdigit]
  dsimp only
  split
  · rename_i r hr
    simp only [Bool.false_eq_true, if_false, List.cons.injEq] at hr
    exact absurd hr.1 hpoint
  · rfl

theorem not_isAlpha_of_isDigit {c : Char} (h : c.isDigit) : c.isAlpha = false := by
  rw [Bool.eq_false_iff]
  intro halpha
  delta Char.isAlpha Char.isUpper Char.isLower at halpha
  simp only [Char.isDigit] at h
  grind

theorem scanNumber_of_name {c : Char} (h : isNameStart c) (cs : List Char) :
    scanNumber (c :: cs) = none := by
  have hdigit : c.isDigit = false := by
    refine Bool.eq_false_iff.2 fun hdigit => ?_
    simp only [isNameStart, Bool.or_eq_true, beq_iff_eq] at h
    rcases h with h | rfl
    · rw [not_isAlpha_of_isDigit hdigit] at h
      cases h
    · exact absurd hdigit (by decide)
  have hpoint : c ≠ '.' := by
    rintro rfl
    exact absurd h (by decide)
  exact scanNumber_of_not_isDigit hdigit hpoint cs

theorem scan_name {name : String} {rest : List Char} (h : IsName name.toList)
    (hrest : Apart rest) : scan (name.toList ++ rest) = some (.ident name, rest) := by
  obtain ⟨c, r, hcs, hstart, hpart⟩ := h
  obtain ⟨htake, hdrop⟩ := takeWhile_append_of_head hpart fun c hc => (hrest c hc).1
  have hname : String.ofList (c :: r) = name := by
    rw [← hcs, String.ofList_toList]
  rw [hcs, List.cons_append, scan,
    scanSymbol_of_word (.inl (isNamePart_of_isNameStart hstart)), scanNumber_of_name hstart,
    scanName, if_pos hstart, htake, hdrop]
  dsimp only
  rw [Option.map_some, hname]

theorem scan_symbol {s : Symbol} {rest : List Char}
    (h : ∀ c, rest.head? = some c → ∀ s' : Symbol, s'.text.toList ≠ s.text.toList ++ [c]) :
    scan (s.text.toList ++ rest) = some (.symbol s, rest) := by
  rw [scan, scanSymbol_text s h]

/-- No symbol has a space in it. -/
theorem scan_symbol_space (s : Symbol) (rest : List Char) :
    scan (s.text.toList ++ ' ' :: rest) = some (.symbol s, ' ' :: rest) := by
  have hall : ∀ s ∈ Symbol.all, ' ' ∉ s.text.toList := by decide
  refine scan_symbol fun c hc s' hs' => hall s' s'.mem_all ?_
  cases hc
  rw [hs']
  exact List.mem_append_right _ (List.mem_singleton_self _)

theorem scan_symbol_lone {s : Symbol} (hs : s ∈ Symbol.lone) (rest : List Char) :
    scan (s.text.toList ++ rest) = some (.symbol s, rest) := by
  have hlen : ∀ s ∈ Symbol.lone, s.text.toList.length = 1 := by decide
  have hall : ∀ s ∈ Symbol.lone, ∀ s' ∈ Symbol.all,
      s'.text.toList.take 1 = s.text.toList → s'.text.toList.length = 1 := by decide
  refine scan_symbol fun c _ s' hs' => ?_
  have hone := hall s hs s' s'.mem_all (by rw [hs', List.take_left' (hlen s hs)])
  rw [hs', List.length_append, hlen s hs, List.length_singleton] at hone
  omega

/-- Nothing that opens a token is skipped. -/
theorem not_isGap_of_scan {c : Char} {cs : List Char} {x : Token × List Char}
    (h : scan (c :: cs) = some x) : isGap c = false := by
  refine Bool.eq_false_iff.2 fun hgap => ?_
  have hall : [' ', '\t', '\r', '\n'].all (fun d => !d.isDigit && !isNameStart d && d != '.' &&
      Symbol.all.all fun s => s.text.toList.head? != some d) := by decide
  have hmem : c ∈ [' ', '\t', '\r', '\n'] := by
    simpa [isGap, or_assoc] using hgap
  have hchecks := List.all_eq_true.1 hall c hmem
  simp only [Bool.and_eq_true, Bool.not_eq_true', bne_iff_ne, List.all_eq_true] at hchecks
  obtain ⟨⟨⟨hdigit, hstart⟩, hpoint⟩, hsymbol⟩ := hchecks
  rw [scan, scanSymbol_eq_none hsymbol, scanNumber_of_not_isDigit hdigit hpoint, scanName,
    if_neg (Bool.eq_false_iff.1 hstart)] at h
  cases h

/-- The first step of a text that opens with a token. -/
theorem lexemesFrom_of_scan {offset : Nat} {t : Token} {cs rest : List Char} {ls : List Lexeme}
    (hscan : scan cs = some (t, rest))
    (h : lexemesFrom (offset + t.text.utf8ByteSize) rest = .ok ls) :
    lexemesFrom offset cs = .ok (⟨t, ⟨offset, offset + t.text.utf8ByteSize⟩⟩ :: ls) := by
  cases cs with
  | nil => exact absurd (scan_shorter hscan) (Nat.not_lt_zero _)
  | cons c r =>
    rw [lexemesFrom, not_isGap_of_scan hscan, if_neg Bool.false_ne_true]
    split
    · rename_i hnone
      rw [hscan] at hnone
      cases hnone
    · rename_i t' rest' hread
      rw [hscan] at hread
      cases hread
      dsimp only
      rw [byteLength_taken hscan, h]

/-- **The tokens of a text**, wherever it stands. -/
def Lexes (cs : List Char) (ts : List Token) : Prop :=
  ∀ offset, ∃ ls, lexemesFrom offset cs = .ok ls ∧ ls.map Lexeme.token = ts

namespace Lexes

variable {cs rest : List Char} {ts : List Token}

theorem nil : Lexes [] [] := by
  intro offset
  exact ⟨[], by rw [lexemesFrom], rfl⟩

theorem space (h : Lexes cs ts) : Lexes (' ' :: cs) ts := by
  intro offset
  obtain ⟨ls, hls, hts⟩ := h (offset + 1)
  refine ⟨ls, ?_, hts⟩
  rw [lexemesFrom, if_pos (by decide), hls]

theorem token {t : Token} (hscan : scan cs = some (t, rest)) (h : Lexes rest ts) :
    Lexes cs (t :: ts) := by
  intro offset
  obtain ⟨ls, hls, hts⟩ := h (offset + t.text.utf8ByteSize)
  exact ⟨_, lexemesFrom_of_scan hscan hls, by rw [List.map_cons, hts]⟩

end Lexes

end NodeFormula
