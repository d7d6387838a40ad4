import Mathlib.Data.List.DropRight
import NodeFormula.Proofs.Formula.Pieces
/-!
# NodeFormula — the function that a text ends with

`functionEnd?` is the longest end of a text that is the name of a function
(`functionEnd?_eq_some_iff`). A name has only the characters of names, so a search among the
last of them finds the same as one in all of the text (`functionEnd?_rtakeWhile`).
-/

namespace NodeFormula

variable {algebraic : Bool} {p : Char → Bool} {cs s name run : List Char}

theorem ne_nil_of_isKnown (h : Catalogue.isKnown (String.ofList name)) : name ≠ [] := by
  obtain ⟨c, r, rfl, -⟩ := isName_of_isKnown h
  exact List.cons_ne_nil _ _

/-- **The longest end** that is the name of a function. -/
theorem functionEnd?_eq_some_iff : functionEnd? cs = some name ↔
    name <:+ cs ∧ Catalogue.isKnown (String.ofList name) ∧
      ∀ s, s <:+ cs → Catalogue.isKnown (String.ofList s) → s.length ≤ name.length := by
  induction cs with
  | nil =>
    refine iff_of_false (by simp [functionEnd?]) fun h => ?_
    exact ne_nil_of_isKnown h.2.1 (List.suffix_nil.1 h.1)
  | cons c cs ih =>
    rw [functionEnd?]
    split_ifs with hknown
    · constructor
      · intro h
        cases h
        exact ⟨List.suffix_refl _, hknown, fun s hs _ => hs.length_le⟩
      · rintro ⟨hname, -, hlongest⟩
        -- an end of the full length is the whole text
        exact congrArg some
          (hname.eq_of_length_le (hlongest _ (List.suffix_refl _) hknown)).symm
    · have hends : ∀ {s}, Catalogue.isKnown (String.ofList s) → (s <:+ c :: cs ↔ s <:+ cs) := by
        intro s hs
        rw [List.suffix_cons_iff, or_iff_right]
        rintro rfl
        exact hknown hs
      rw [ih]
      constructor
      · rintro ⟨hname, hs, hlongest⟩
        exact ⟨(hends hs).2 hname, hs, fun s hend hs => hlongest s ((hends hs).1 hend) hs⟩
      · rintro ⟨hname, hs, hlongest⟩
        exact ⟨(hends hs).1 hname, hs, fun s hend hs => hlongest s ((hends hs).2 hend) hs⟩

theorem functionEnd?_suffix (h : functionEnd? cs = some name) : name <:+ cs :=
  (functionEnd?_eq_some_iff.1 h).1

/-- Texts that end in the same functions. -/
theorem functionEnd?_congr (h : ∀ s, Catalogue.isKnown (String.ofList s) → (s <:+ cs ↔ s <:+ run)) :
    functionEnd? cs = functionEnd? run := by
  refine Option.ext fun name => ?_
  rw [functionEnd?_eq_some_iff, functionEnd?_eq_some_iff]
  constructor
  · rintro ⟨hname, hs, hlongest⟩
    exact ⟨(h name hs).1 hname, hs, fun s hend hs => hlongest s ((h s hs).2 hend) hs⟩
  · rintro ⟨hname, hs, hlongest⟩
    exact ⟨(h name hs).2 hname, hs, fun s hend hs => hlongest s ((h s hs).1 hend) hs⟩

/-- An end in which all is of the class ends the run of the class, too. -/
theorem suffix_rtakeWhile_iff : s <:+ cs.rtakeWhile p ↔ s <:+ cs ∧ ∀ c ∈ s, p c := by
  constructor
  · intro h
    exact ⟨h.trans (List.rtakeWhile_suffix p cs), fun c hc => List.mem_rtakeWhile_imp (h.subset hc)⟩
  · rintro ⟨⟨front, rfl⟩, hs⟩
    rw [List.rtakeWhile, List.reverse_append,
      List.takeWhile_append_of_pos fun c hc => hs c (List.mem_reverse.1 hc), List.reverse_append,
      List.reverse_reverse]
    exact List.suffix_append _ _

/-- **The last characters of names say which function** a text ends with. -/
theorem functionEnd?_rtakeWhile (hp : ∀ c, isNamePart c → p c) (cs : List Char) :
    functionEnd? (cs.rtakeWhile p) = functionEnd? cs := by
  refine functionEnd?_congr fun s hs => ?_
  rw [suffix_rtakeWhile_iff, and_iff_left]
  obtain ⟨c, r, rfl, hc, hr⟩ := isName_of_isKnown hs
  exact List.forall_mem_cons.2 ⟨hp c (isNamePart_of_isNameStart hc), fun d hd => hp d (hr d hd)⟩

/-- The name in front of a group is the end of what stands there. -/
theorem functionSuffix?_suffix (h : functionSuffix? algebraic run = some name) :
    name <:+ run ∧ Catalogue.isKnown (String.ofList name) := by
  rw [functionSuffix?] at h
  split_ifs at h with halgebraic hknown
  · exact ⟨functionEnd?_suffix h, isKnown_of_functionEnd? h⟩
  · cases h
    exact ⟨List.suffix_refl _, hknown⟩

end NodeFormula
