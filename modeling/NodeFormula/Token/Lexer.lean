import NodeFormula.Token
/-!
# NodeFormula — reading tokens

At each place the longest lexeme is taken; spaces, tabs and line ends between
lexemes are skipped. `scan` reads one lexeme and `lexemes` a whole text, with the
spans counted in bytes.
-/

namespace NodeFormula

/-- Space, tab, carriage return and line feed separate tokens. -/
def isGap (c : Char) : Bool :=
  c == ' ' || c == '\t' || c == '\r' || c == '\n'

/-- Names open with an ASCII letter or an underscore. -/
def isNameStart (c : Char) : Bool := c.isAlpha || c == '_'

/-- Names continue with ASCII letters, digits and underscores. -/
def isNamePart (c : Char) : Bool := c.isAlphanum || c == '_'

/-- The symbol a text opens with, the longer one if there are two. -/
def scanSymbol (cs : List Char) : Option (Symbol × List Char) :=
  match Symbol.ofText? (String.ofList (cs.take 2)) with
  | some s => some (s, cs.drop 2)
  | none => (Symbol.ofText? (String.ofList (cs.take 1))).map fun s => (s, cs.drop 1)

/-- The numeral a text opens with: digits and perhaps a point with further digits,
or a point with at least one digit. -/
def scanNumber (cs : List Char) : Option (List Char × List Char) :=
  let whole := cs.takeWhile Char.isDigit
  match cs.dropWhile Char.isDigit with
  | '.' :: r =>
    let places := r.takeWhile Char.isDigit
    if whole.isEmpty && places.isEmpty then none
    else some (whole ++ '.' :: places, r.dropWhile Char.isDigit)
  | r => if whole.isEmpty then none else some (whole, r)

/-- The name a text opens with. -/
def scanName (cs : List Char) : Option (List Char × List Char) :=
  match cs with
  | [] => none
  | c :: r =>
    if isNameStart c then some (c :: r.takeWhile isNamePart, r.dropWhile isNamePart) else none

/-- The token a text opens with, as long as possible, and the text after it. -/
def scan (cs : List Char) : Option (Token × List Char) :=
  match scanSymbol cs with
  | some (s, r) => some (.symbol s, r)
  | none =>
    match scanNumber cs with
    | some (text, r) => some (.number (String.ofList text), r)
    | none => (scanName cs).map fun (name, r) => (.ident (String.ofList name), r)

/-- A character no token starts with. -/
structure LexError where
  char : Char
  span : Span
  deriving DecidableEq, Repr

/-- The wording of a lexical error. -/
def LexError.message (e : LexError) : String :=
  s!"unexpected '{e.char}' at {e.span.start}..{e.span.stop}"

private theorem ofText?_empty : Symbol.ofText? "" = none := by decide

private theorem scanSymbol_shorter {cs r : List Char} {s : Symbol}
    (h : scanSymbol cs = some (s, r)) : r.length < cs.length := by
  unfold scanSymbol at h
  cases cs with
  | nil => simp [ofText?_empty] at h
  | cons c cs =>
    split at h
    · simp only [Option.some.injEq, Prod.mk.injEq] at h
      rw [← h.2, List.length_drop, List.length_cons]
      omega
    · obtain ⟨_, _, heq⟩ := Option.map_eq_some_iff.1 h
      simp only [Prod.mk.injEq] at heq
      simp [← heq.2]

private theorem length_dropWhile_le (p : Char → Bool) (cs : List Char) :
    (cs.dropWhile p).length ≤ cs.length :=
  (List.dropWhile_sublist p).length_le

private theorem scanNumber_shorter {cs r text : List Char}
    (h : scanNumber cs = some (text, r)) : r.length < cs.length := by
  have split_length : (cs.takeWhile Char.isDigit).length + (cs.dropWhile Char.isDigit).length
      = cs.length := by
    rw [← List.length_append, List.takeWhile_append_dropWhile]
  unfold scanNumber at h
  simp only at h
  split at h
  · rename_i rest heq
    rw [heq] at split_length
    have := length_dropWhile_le Char.isDigit rest
    split at h
    · cases h
    · simp only [Option.some.injEq, Prod.mk.injEq] at h
      simp only [List.length_cons] at split_length
      rw [← h.2]
      omega
  · split at h
    · cases h
    · rename_i hne
      simp only [Option.some.injEq, Prod.mk.injEq] at h
      have := List.length_pos_iff.2 (mt List.isEmpty_iff.2 hne)
      rw [← h.2]
      omega

private theorem scanName_shorter {cs r name : List Char}
    (h : scanName cs = some (name, r)) : r.length < cs.length := by
  unfold scanName at h
  split at h
  · cases h
  · rename_i c rest
    split at h
    · simp only [Option.some.injEq, Prod.mk.injEq] at h
      have := length_dropWhile_le isNamePart rest
      rw [← h.2, List.length_cons]
      omega
    · cases h

/-- A token takes at least one character. -/
theorem scan_shorter {cs r : List Char} {t : Token} (h : scan cs = some (t, r)) :
    r.length < cs.length := by
  unfold scan at h
  split at h
  · rename_i hs
    simp only [Option.some.injEq, Prod.mk.injEq] at h
    exact h.2 ▸ scanSymbol_shorter hs
  · split at h
    · rename_i hn
      simp only [Option.some.injEq, Prod.mk.injEq] at h
      exact h.2 ▸ scanNumber_shorter hn
    · obtain ⟨⟨name, rest⟩, hname, heq⟩ := Option.map_eq_some_iff.1 h
      simp only [Prod.mk.injEq] at heq
      exact heq.2 ▸ scanName_shorter hname

/-- What has been taken of a text when a rest of it is left. -/
def taken (cs rest : List Char) : List Char := cs.take (cs.length - rest.length)

/-- The lexemes of a text that starts at a byte offset. -/
def lexemesFrom (offset : Nat) (cs : List Char) : Except LexError (List Lexeme) :=
  match cs with
  | [] => .ok []
  | c :: r =>
    if isGap c then lexemesFrom (offset + 1) r
    else match _h : scan (c :: r) with
      | none => .error ⟨c, ⟨offset, offset + c.utf8Size⟩⟩
      | some (t, rest) =>
        let stop := offset + byteLength (taken (c :: r) rest)
        match lexemesFrom stop rest with
        | .ok ls => .ok (⟨t, ⟨offset, stop⟩⟩ :: ls)
        | .error e => .error e
  termination_by cs.length
  decreasing_by
    · simp
    · exact scan_shorter ‹_›

/-- The lexemes of a formula, or the first character that opens none. -/
def lexemes (source : String) : Except LexError (List Lexeme) :=
  lexemesFrom 0 source.toList

end NodeFormula
