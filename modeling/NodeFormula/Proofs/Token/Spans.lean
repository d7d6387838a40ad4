import NodeFormula.Proofs.Text.Bytes
import NodeFormula.Proofs.Token.Written
/-!
# NodeFormula — reading tokens loses nothing

What `scan` takes is the text of its token, and no token is spelled by more of what stands
there (`length_le_of_scan`). Over a whole text the lexemes follow each
other, each span covers the text of its token, and only gaps lie outside: `Spelled`, carried
through the recursion by one lemma for a gap and one for a token. Conversely tokens written
one space apart are read back as they are (`lexes_intercalate`).
-/

namespace NodeFormula

variable {cs rest front back : List Char}

/-! ## The longest token

Each scanner is shown to leave no more than stands behind any spelling that its pattern
allows. -/

/-- The longer symbol is tried first. -/
theorem exists_scanSymbol (s : Symbol) (back : List Char) :
    ∃ s' rest, scanSymbol (s.text.toList ++ back) = some (s', rest) ∧
      rest.length ≤ back.length := by
  have hlength : s.text.toList.length = 1 ∨ s.text.toList.length = 2 := by
    cases s <;> decide
  have hdrop := List.length_drop (i := 2) (l := s.text.toList ++ back)
  rw [List.length_append] at hdrop
  unfold scanSymbol
  split
  · exact ⟨_, _, rfl, by omega⟩
  · rename_i hnone
    rcases hlength with hone | htwo
    · rw [List.take_left' hone, List.drop_left' hone, Symbol.ofText?_ofList.2 rfl]
      exact ⟨_, _, rfl, Nat.le_refl _⟩
    · rw [List.take_left' htwo, Symbol.ofText?_ofList.2 rfl] at hnone
      cases hnone

theorem length_dropWhile_append_le {p : Char → Bool} (h : ∀ c ∈ front, p c) :
    ((front ++ back).dropWhile p).length ≤ back.length := by
  rw [List.dropWhile_append_of_pos h]
  exact (List.dropWhile_sublist p).length_le

/-- A numeral goes on through its digits, and through a point behind them. -/
theorem exists_scanNumber (h : IsNumeral cs) (back : List Char) :
    ∃ text rest, scanNumber (cs ++ back) = some (text, rest) ∧ rest.length ≤ back.length := by
  obtain ⟨whole, places, hwhole, hplaces, ⟨rfl, hne⟩ | ⟨rfl, hne⟩⟩ := h
  · have hdrop : ((cs ++ back).dropWhile Char.isDigit).length ≤ back.length :=
      length_dropWhile_append_le hwhole
    have hsome : ((cs ++ back).takeWhile Char.isDigit).isEmpty = false := by
      rw [List.takeWhile_append_of_pos hwhole, List.isEmpty_eq_false_iff]
      exact List.append_ne_nil_of_left_ne_nil hne _
    rw [scanNumber, hsome]
    dsimp only
    split
    · rename_i r hr
      have hrest := (List.dropWhile_sublist (l := r) Char.isDigit).length_le
      rw [hr, List.length_cons] at hdrop
      exact ⟨_, _, rfl, by omega⟩
    · exact ⟨_, _, rfl, hdrop⟩
  · have hpoint : ∀ c, ('.' :: (places ++ back)).head? = some c → c.isDigit = false := by
      rintro c hc
      cases hc
      decide
    obtain ⟨htake, hdrop⟩ := takeWhile_append_of_head hwhole hpoint
    have hsome : (whole.isEmpty && ((places ++ back).takeWhile Char.isDigit).isEmpty) = false := by
      rw [Bool.and_eq_false_iff, List.isEmpty_eq_false_iff, List.isEmpty_eq_false_iff,
        List.takeWhile_append_of_pos hplaces]
      exact hne.imp_right fun h => List.append_ne_nil_of_left_ne_nil h _
    rw [List.append_assoc, List.cons_append, scanNumber, htake, hdrop]
    dsimp only
    split
    · rename_i r hr
      cases hr
      rw [hsome]
      exact ⟨_, _, rfl, length_dropWhile_append_le hplaces⟩
    · rename_i hother
      exact absurd rfl (hother _)

/-- Where a token is spelled, one is read and it takes at least as much. -/
theorem exists_scan {t : Token} (h : t.Written) (back : List Char) :
    ∃ t' rest, scan (t.text.toList ++ back) = some (t', rest) ∧ rest.length ≤ back.length := by
  cases t with
  | symbol s =>
    obtain ⟨s', rest, hs, hle⟩ := exists_scanSymbol s back
    exact ⟨.symbol s', rest, by rw [scan, Token.text, hs], hle⟩
  | number text =>
    obtain ⟨c, r, hcs, hc⟩ := IsNumeral.exists_cons h
    obtain ⟨text', rest, hn, hle⟩ := exists_scanNumber h back
    refine ⟨.number (String.ofList text'), rest, ?_, hle⟩
    have hsymbol : scanSymbol (text.toList ++ back) = none := by
      rw [hcs]
      exact scanSymbol_of_word hc _
    rw [scan, Token.text, hsymbol, hn]
  | ident name =>
    obtain ⟨c, r, hcs, hstart, hpart⟩ := h
    refine ⟨.ident (String.ofList (c :: (r ++ back).takeWhile isNamePart)), _, ?_,
      length_dropWhile_append_le hpart⟩
    rw [Token.text, hcs, List.cons_append, scan,
      scanSymbol_of_word (.inl (isNamePart_of_isNameStart hstart)), scanNumber_of_name hstart,
      scanName, if_pos hstart]
    rfl

/-- **The longest token is read**: none is spelled by more of the text. -/
theorem length_le_of_scan {t t' : Token} (h : scan cs = some (t, rest)) (hw : t'.Written)
    (hcs : cs = t'.text.toList ++ back) : rest.length ≤ back.length := by
  obtain ⟨_, _, hscan, hle⟩ := exists_scan hw back
  rw [← hcs, h] at hscan
  cases hscan
  exact hle

/-! ## Places in a text -/

/-- A lexeme stands in a text where its token is read, and its span covers it. -/
def Lexeme.StandsIn (source : List Char) (l : Lexeme) : Prop :=
  ∃ front back, source = front ++ (l.token.text.toList ++ back) ∧
    l.span = ⟨byteLength front, byteLength front + byteLength l.token.text.toList⟩ ∧
    scan (l.token.text.toList ++ back) = some (l.token, back)

namespace Lexeme.StandsIn

variable {source : String} {l : Lexeme}

theorem snippet_eq (h : l.StandsIn source.toList) : l.span.snippet source = l.token.text := by
  obtain ⟨front, back, hsource, hspan, -⟩ := h
  rw [Span.snippet_eq_iff, hsource, hspan, Span.slice_append]

theorem written (h : l.StandsIn source.toList) : l.token.Written := by
  obtain ⟨_, _, -, -, hscan⟩ := h
  exact written_of_scan hscan

/-- No token that starts there reaches further. -/
theorem stop_le (h : l.StandsIn source.toList) {t : Token} {stop : Nat} (ht : t.Written)
    (htext : (⟨l.span.start, stop⟩ : Span).snippet source = t.text) : stop ≤ l.span.stop := by
  obtain ⟨front, back, hsource, hspan, hscan⟩ := h
  rw [hspan, Span.snippet_eq_iff, hsource] at htext
  have hne : t.text.toList ≠ [] := by
    obtain ⟨t', rest, hread, hle⟩ := exists_scan ht []
    have hshorter := scan_shorter hread
    rintro hnil
    rw [hnil] at hshorter
    exact absurd hshorter (Nat.not_lt_zero _)
  obtain ⟨rest, heq, rfl⟩ := Span.exists_of_slice htext hne
  have hrest := length_le_of_scan hscan ht heq
  -- the rest behind the lexeme is the shorter one, so its token is the longer one
  have hprefix : t.text.toList <+: l.token.text.toList := by
    have hlength := congrArg List.length heq
    rw [List.length_append, List.length_append] at hlength
    exact List.prefix_of_prefix_length_le ⟨rest, heq.symm⟩ ⟨back, rfl⟩ (by omega)
  obtain ⟨more, hmore⟩ := hprefix
  rw [hspan, ← hmore, byteLength_append]
  dsimp only
  omega

end Lexeme.StandsIn

/-- A position at or behind the end of a part is that end or lies behind what follows. -/
theorem eq_or_byteLength_le {c d : Char} {post : List Char}
    (h : front ++ c :: rest = back ++ d :: post) (hle : byteLength front ≤ byteLength back) :
    c = d ∨ byteLength (front ++ [c]) ≤ byteLength back := by
  rcases List.append_eq_append_iff.1 h with ⟨mid, hback, hmid⟩ | ⟨mid, hfront, hmid⟩
  · cases mid with
    | nil =>
      cases hmid
      exact .inl rfl
    | cons e mid =>
      cases hmid
      right
      rw [hback, byteLength_append, byteLength_append, byteLength_cons, byteLength_cons,
        byteLength_nil]
      omega
  · cases mid with
    | nil =>
      cases hmid
      exact .inl rfl
    | cons e mid =>
      rw [hfront, byteLength_append, byteLength_cons] at hle
      have := e.utf8Size_pos
      omega

/-- **The lexemes from a place of a text on**: they stand there in order, and what no span
covers are gaps. -/
structure Spelled (source : List Char) (offset : Nat) (ls : List Lexeme) : Prop where
  /-- Each lexeme stands in the text. -/
  stands : ∀ l ∈ ls, l.StandsIn source
  /-- None starts before the place. -/
  behind : ∀ l ∈ ls, offset ≤ l.span.start
  /-- Each ends before the next ones start. -/
  ordered : ls.Pairwise fun l l' => l.span.stop ≤ l'.span.start
  /-- A character that no span covers separates tokens. -/
  gaps : ∀ pre c post, source = pre ++ c :: post → offset ≤ byteLength pre →
    (∀ l ∈ ls, ¬(l.span.start ≤ byteLength pre ∧ byteLength pre < l.span.stop)) → isGap c

namespace Spelled

variable {source : List Char} {ls : List Lexeme}

theorem nil (source : List Char) : Spelled source (byteLength source) [] where
  stands := List.forall_mem_nil _
  behind := List.forall_mem_nil _
  ordered := .nil
  gaps := by
    intro pre c post hsource hle
    have := c.utf8Size_pos
    rw [hsource, byteLength_append, byteLength_cons] at hle
    omega

theorem gap {c : Char} (h : Spelled source (byteLength (front ++ [c])) ls) (hc : isGap c)
    (hsource : source = front ++ c :: rest) : Spelled source (byteLength front) ls where
  stands := h.stands
  behind l hl := Nat.le_trans (by rw [byteLength_append]; omega) (h.behind l hl)
  ordered := h.ordered
  gaps := by
    intro pre d post hpre hle hout
    rcases eq_or_byteLength_le (hsource.symm.trans hpre) hle with rfl | hbehind
    · exact hc
    · exact h.gaps pre d post hpre hbehind hout

theorem token {t : Token} (h : Spelled source (byteLength (front ++ t.text.toList)) ls)
    (hscan : scan (t.text.toList ++ rest) = some (t, rest))
    (hsource : source = front ++ (t.text.toList ++ rest)) :
    Spelled source (byteLength front)
      (⟨t, ⟨byteLength front, byteLength (front ++ t.text.toList)⟩⟩ :: ls) where
  stands := by
    refine List.forall_mem_cons.2 ⟨⟨front, rest, hsource, ?_, hscan⟩, h.stands⟩
    rw [byteLength_append]
  behind := by
    refine List.forall_mem_cons.2 ⟨Nat.le_refl _, fun l hl => Nat.le_trans ?_ (h.behind l hl)⟩
    rw [byteLength_append]
    exact Nat.le_add_right _ _
  ordered := List.pairwise_cons.2 ⟨h.behind, h.ordered⟩
  gaps := by
    intro pre c post hpre hle hout
    rw [List.forall_mem_cons] at hout
    exact h.gaps pre c post hpre (Nat.not_lt.1 fun hlt => hout.1 ⟨hle, hlt⟩) hout.2

end Spelled

/-- Gaps are single bytes. -/
theorem utf8Size_of_isGap {c : Char} (h : isGap c) : c.utf8Size = 1 := by
  simp only [isGap, Bool.or_eq_true, beq_iff_eq] at h
  obtain ((rfl | rfl) | rfl) | rfl := h <;> decide

/-- **The lexemes of the rest of a text are spelled there.** Induction follows `lexemesFrom`,
with the part that has been read growing in front. -/
theorem spelled_of_lexemesFrom (offset : Nat) (cs : List Char) :
    ∀ (front : List Char) (ls : List Lexeme), lexemesFrom offset cs = .ok ls →
      offset = byteLength front → Spelled (front ++ cs) offset ls := by
  fun_induction lexemesFrom offset cs with
  | case1 offset =>
    rintro front ls h rfl
    cases h
    rw [List.append_nil]
    exact .nil front
  | case2 offset c r hgap ih =>
    rintro front ls h rfl
    have hnext : byteLength front + 1 = byteLength (front ++ [c]) := by
      rw [byteLength_append, byteLength_cons, byteLength_nil, utf8Size_of_isGap hgap]
    have hspelled := ih _ ls h hnext
    rw [List.append_assoc, List.singleton_append, hnext] at hspelled
    exact hspelled.gap hgap rfl
  | case3 offset c r hgap hnone =>
    intro front ls h
    cases h
  | case4 offset c r hgap t rest hread stop ls' hls ih =>
    rintro front ls h rfl
    cases h
    have hcs := eq_append_of_scan hread
    have hstop : stop = byteLength (front ++ t.text.toList) := by
      rw [byteLength_append, byteLength_toList, ← byteLength_taken hread]
    have hspelled := ih _ ls' hls hstop
    rw [List.append_assoc, ← hcs, hstop] at hspelled
    rw [hstop]
    rw [hcs] at hread hspelled ⊢
    exact hspelled.token hread rfl
  | case5 offset c r hgap t rest hread stop err herr ih =>
    intro front ls h
    cases h

/-! ## Tokens one space apart -/

/-- A written token is read in front of a space. -/
theorem scan_space {t : Token} (h : t.Written) (rest : List Char) :
    scan (t.text.toList ++ ' ' :: rest) = some (t, ' ' :: rest) := by
  have hapart : Apart (' ' :: rest) := by
    rintro c hc
    cases hc
    decide
  cases t with
  | symbol s => exact scan_symbol_space s rest
  | number text => exact scan_number h hapart
  | ident name => exact scan_name h hapart

/-- A written token is read at the end of a text. -/
theorem scan_end {t : Token} (h : t.Written) : scan t.text.toList = some (t, []) := by
  have hapart : Apart [] := by
    rintro c hc
    cases hc
  cases t with
  | symbol s =>
    have hscan : scan (s.text.toList ++ []) = some (.symbol s, []) :=
      scan_symbol (by rintro c hc; cases hc)
    rwa [List.append_nil] at hscan
  | number text =>
    have hscan := scan_number h hapart
    rwa [List.append_nil] at hscan
  | ident name =>
    have hscan := scan_name h hapart
    rwa [List.append_nil] at hscan

theorem lexes_intercalate (ts : List Token) (h : ∀ t ∈ ts, t.Written) :
    Lexes (" ".intercalate (ts.map Token.text)).toList ts := by
  induction ts with
  | nil => exact .nil
  | cons t ts ih =>
    rw [List.forall_mem_cons] at h
    cases ts with
    | nil =>
      rw [List.map_singleton, String.intercalate_singleton]
      exact .token (scan_end h.1) .nil
    | cons t' ts =>
      rw [List.map_cons, List.map_cons, String.intercalate_cons_cons, ← List.map_cons,
        String.toList_append, String.toList_append, List.append_assoc]
      exact .token (scan_space h.1 _) (.space (ih h.2))

/-! ## The whole text -/

/-- **A text and its lexemes say the same.** If a text is read, the spans are in order, each
covers exactly the text of its token, no pattern matches further from where it starts, and the
characters outside are spaces, tabs and line ends. And every list of tokens is read back from
their texts one space apart. -/
theorem lexemes_lossless :
    (∀ (source : String) (ls : List Lexeme), lexemes source = .ok ls →
      ls.Pairwise (fun l l' => l.span.stop ≤ l'.span.start) ∧
      (∀ l ∈ ls, l.token.Written ∧ l.span.snippet source = l.token.text ∧
        ∀ (p : TokenPattern) (stop : Nat),
          p.Matches (Span.slice ⟨l.span.start, stop⟩ source.toList) → stop ≤ l.span.stop) ∧
      ∀ pre c post, source.toList = pre ++ c :: post →
        (∀ l ∈ ls, ¬(l.span.start ≤ byteLength pre ∧ byteLength pre < l.span.stop)) →
        isGap c) ∧
    ∀ ts : List Token, (∀ t ∈ ts, t.Written) →
      ∃ ls, lexemes (" ".intercalate (ts.map Token.text)) = .ok ls ∧
        ls.map Lexeme.token = ts := by
  constructor
  · intro source ls h
    have hspelled := spelled_of_lexemesFrom 0 source.toList [] ls h byteLength_nil.symm
    rw [List.nil_append] at hspelled
    refine ⟨hspelled.ordered, fun l hl => ?_, fun pre c post hpre => ?_⟩
    · have hl := hspelled.stands l hl
      refine ⟨hl.written, hl.snippet_eq, fun p stop hp => ?_⟩
      obtain ⟨t, ht, htext⟩ := hp.exists_written
      exact hl.stop_le ht (Span.snippet_eq_iff.2 htext)
    · exact hspelled.gaps pre c post hpre (Nat.zero_le _)
  · intro ts h
    exact lexes_intercalate ts h 0

/-- A name, a doubled symbol and a numeral that ends in a point. -/
theorem lexemes_lossless_quotient :
    ∃ ls, lexemes "x // 3." = .ok ls ∧
      ls.map Lexeme.token = [.ident "x", .symbol .slashSlash, .number "3."] ∧
      ls.Pairwise (fun l l' => l.span.stop ≤ l'.span.start) ∧
      ∀ l ∈ ls, l.span.snippet "x // 3." = l.token.text := by
  have hname : Token.Written (.ident "x") :=
    ⟨'x', [], by decide, by decide, List.forall_mem_nil _⟩
  have hnumber : Token.Written (.number "3.") :=
    ⟨['3'], [], List.forall_mem_singleton.2 rfl, List.forall_mem_nil _,
      .inr ⟨by decide, .inl (by decide)⟩⟩
  have hts : ∀ t ∈ ([.ident "x", .symbol .slashSlash, .number "3."] : List Token), t.Written := by
    rw [List.forall_mem_cons, List.forall_mem_cons, List.forall_mem_singleton]
    exact ⟨hname, trivial, hnumber⟩
  obtain ⟨ls, hls, htokens⟩ := lexemes_lossless.2 _ hts
  have hsource : " ".intercalate
      ([.ident "x", .symbol .slashSlash, .number "3."].map Token.text) = "x // 3." := by decide
  rw [hsource] at hls
  obtain ⟨hordered, hlexemes, -⟩ := lexemes_lossless.1 _ ls hls
  exact ⟨ls, hls, htokens, hordered, fun l hl => (hlexemes l hl).2.1⟩

end NodeFormula
