import NodeFormula.Text.Span
/-!
# NodeFormula — what a span covers

A cut at a byte offset gives back the two parts of a text if it falls between them
(`splitBytes?_append`), and whatever it gives are such parts (`eq_of_splitBytes?`). So the span
over a part of a text covers that part (`Span.slice_append`), and a span that covers something
behind a prefix covers a prefix of what follows (`Span.exists_of_slice`).
-/

namespace NodeFormula

variable {front back cs : List Char}

/-- The bytes of a text are those of its characters. -/
theorem byteLength_toList (s : String) : byteLength s.toList = s.utf8ByteSize := by
  have hofList : ∀ cs : List Char, byteLength cs = (String.ofList cs).utf8ByteSize := by
    intro cs
    induction cs with
    | nil => rfl
    | cons c cs ih =>
      rw [byteLength_cons, ih, String.ofList_cons, String.utf8ByteSize_append,
        String.utf8ByteSize_singleton]
  rw [hofList, String.ofList_toList]

/-- **A cut between two parts of a text gives them back.** -/
theorem splitBytes?_append (front back : List Char) :
    splitBytes? (byteLength front) (front ++ back) = some (front, back) := by
  induction front with
  | nil =>
    rw [byteLength_nil, List.nil_append]
    cases back <;> rw [splitBytes?]
  | cons c front ih =>
    have hpos := c.utf8Size_pos
    obtain ⟨n, hn⟩ : ∃ n, byteLength (c :: front) = n + 1 :=
      Nat.exists_eq_add_one_of_ne_zero (by rw [byteLength_cons]; omega)
    have hrest : n + 1 - c.utf8Size = byteLength front := by
      rw [← hn, byteLength_cons]
      omega
    rw [hn, List.cons_append, splitBytes?, if_pos (by rw [← hn, byteLength_cons]; omega), hrest, ih]
    rfl

/-- What a cut gives are the two parts. -/
theorem eq_of_splitBytes? {n : Nat} (h : splitBytes? n cs = some (front, back)) :
    cs = front ++ back ∧ byteLength front = n := by
  induction cs generalizing n front with
  | nil =>
    cases n with
    | zero =>
      rw [splitBytes?] at h
      cases h
      exact ⟨rfl, rfl⟩
    | succ n =>
      rw [splitBytes?] at h
      cases h
  | cons c cs ih =>
    cases n with
    | zero =>
      rw [splitBytes?] at h
      cases h
      exact ⟨rfl, rfl⟩
    | succ n =>
      rw [splitBytes?] at h
      split at h
      · rename_i hle
        obtain ⟨⟨front', back'⟩, hsplit, heq⟩ := Option.map_eq_some_iff.1 h
        cases heq
        obtain ⟨rfl, hlength⟩ := ih hsplit
        refine ⟨rfl, ?_⟩
        rw [byteLength_cons, hlength]
        omega
      · cases h

namespace Span

/-- **The span over a part of a text covers that part.** -/
theorem slice_append (front cs back : List Char) :
    (⟨byteLength front, byteLength front + byteLength cs⟩ : Span).slice (front ++ (cs ++ back))
      = cs := by
  rw [slice, if_neg (Nat.not_lt.2 (Nat.le_add_right _ _)), splitBytes?_append]
  simp only [Nat.add_sub_cancel_left, splitBytes?_append]

/-- What a span covers behind a prefix comes next. -/
theorem exists_of_slice {stop : Nat}
    (h : (⟨byteLength front, stop⟩ : Span).slice (front ++ back) = cs) (hne : cs ≠ []) :
    ∃ rest, back = cs ++ rest ∧ stop = byteLength front + byteLength cs := by
  rw [slice] at h
  split at h
  · exact absurd h.symm hne
  rename_i hle
  rw [splitBytes?_append] at h
  dsimp only at h hle
  cases hsplit : splitBytes? (stop - byteLength front) back with
  | none =>
    rw [hsplit] at h
    exact absurd h.symm hne
  | some parts =>
    rw [hsplit] at h
    obtain ⟨hback, hlength⟩ := eq_of_splitBytes? hsplit
    rw [← h, hlength]
    exact ⟨parts.2, hback, by omega⟩

/-- The text that a span covers, by its characters. -/
theorem snippet_eq_iff {s : Span} {source text : String} :
    s.snippet source = text ↔ s.slice source.toList = text.toList := by
  rw [snippet, ← String.toList_inj, String.toList_ofList]

end Span

end NodeFormula
