import Mathlib.Data.List.Chain
import NodeFormula.Text.Segment
/-!
# NodeFormula — the cut of a text

The segments of a text are runs of the class and single other characters, and no two runs
touch (`isCut_segments`). A text has no other cut of this kind (`segments_flatten`). A
character outside of the class ends a run on either side (`segments_append_cons`,
`segments_eq_append_cons_iff`), so text of such characters may be put in between two runs
without a change to either (`runs_append_append`).
-/

namespace NodeFormula

variable {p : Char → Bool} {c : Char} {s t cs : List Char} {ss ts : List (List Char)}

/-- A run of the class, or one other character. -/
def IsSegment (p : Char → Bool) (s : List Char) : Prop :=
  s ≠ [] ∧ (∀ c ∈ s, p c) ∨ ∃ c, p c = false ∧ s = [c]

/-- A segment that belongs to the class. -/
def isRun (p : Char → Bool) (s : List Char) : Bool := s.head?.any p

/-- **Segments of which no two runs touch.** -/
structure IsCut (p : Char → Bool) (ss : List (List Char)) : Prop where
  segment : ∀ s ∈ ss, IsSegment p s
  apart : ss.IsChain fun s t => ¬ (isRun p s ∧ isRun p t)

namespace IsSegment

theorem ne_nil (h : IsSegment p s) : s ≠ [] := by
  rcases h with ⟨h, -⟩ | ⟨c, -, rfl⟩
  · exact h
  · exact List.cons_ne_nil _ _

theorem all_of_isRun (h : IsSegment p s) (hs : isRun p s) : ∀ c ∈ s, p c := by
  rcases h with ⟨-, h⟩ | ⟨c, hc, rfl⟩
  · exact h
  · exact absurd (hs.symm.trans hc) (by decide)

theorem exists_of_not_isRun (h : IsSegment p s) (hs : isRun p s = false) :
    ∃ c, p c = false ∧ s = [c] := by
  rcases h with ⟨hne, h⟩ | h
  · obtain ⟨c, r, rfl⟩ := List.exists_cons_of_ne_nil hne
    exact absurd ((h c List.mem_cons_self).symm.trans hs) (by decide)
  · exact h

theorem single (p : Char → Bool) (c : Char) : IsSegment p [c] := by
  cases hc : p c with
  | true => exact Or.inl ⟨List.cons_ne_nil _ _, by simpa using hc⟩
  | false => exact Or.inr ⟨c, hc, rfl⟩

end IsSegment

namespace IsCut

theorem nil : IsCut p [] := ⟨List.forall_mem_nil _, .nil⟩

theorem cons_iff : IsCut p (s :: ss) ↔
    IsSegment p s ∧ (∀ t ∈ ss.head?, ¬ (isRun p s ∧ isRun p t)) ∧ IsCut p ss := by
  constructor
  · rintro ⟨hsegment, hapart⟩
    rw [List.isChain_cons] at hapart
    rw [List.forall_mem_cons] at hsegment
    exact ⟨hsegment.1, hapart.1, hsegment.2, hapart.2⟩
  · rintro ⟨hs, hhead, hss⟩
    exact ⟨List.forall_mem_cons.2 ⟨hs, hss.segment⟩, List.isChain_cons.2 ⟨hhead, hss.apart⟩⟩

theorem ne_nil_of_mem (h : IsCut p ss) (hs : s ∈ ss) : s ≠ [] := (h.segment s hs).ne_nil

end IsCut

theorem isCut_glue (c : Char) (h : IsCut p ss) : IsCut p (glue p c ss) := by
  cases ss with
  | nil => exact IsCut.cons_iff.2 ⟨.single p c, by simp, h⟩
  | cons t rest =>
    obtain ⟨d, ds, rfl⟩ := List.exists_cons_of_ne_nil (h.ne_nil_of_mem List.mem_cons_self)
    rw [glue]
    split
    · -- the character joins the first run
      rename_i hboth
      rw [Bool.and_eq_true] at hboth
      obtain ⟨ht, hhead, hrest⟩ := IsCut.cons_iff.1 h
      have hrun : isRun p (d :: ds) := hboth.2
      refine IsCut.cons_iff.2 ⟨Or.inl ⟨List.cons_ne_nil _ _, ?_⟩, fun t' ht' hruns => ?_, hrest⟩
      · exact List.forall_mem_cons.2 ⟨hboth.1, ht.all_of_isRun hrun⟩
      · exact hhead t' ht' ⟨hrun, hruns.2⟩
    · rename_i hboth
      refine IsCut.cons_iff.2 ⟨.single p c, fun t' ht' hruns => ?_, h⟩
      cases ht'
      exact hboth (Bool.and_eq_true_iff.2 hruns)

/-- **The segments of a text are a cut of it.** -/
theorem isCut_segments (p : Char → Bool) (cs : List Char) : IsCut p (segments p cs) := by
  induction cs with
  | nil => exact .nil
  | cons c cs ih => exact isCut_glue c ih

/-- A run in front of segments that do not open with one. -/
theorem foldr_glue_run (hs : s ≠ []) (hall : ∀ c ∈ s, p c) (hne : ∀ t ∈ ss, t ≠ [])
    (hhead : ∀ t ∈ ss.head?, isRun p t = false) : s.foldr (glue p) ss = s :: ss := by
  induction s with
  | nil => exact absurd rfl hs
  | cons c s ih =>
    rw [List.forall_mem_cons] at hall
    cases s with
    | nil =>
      cases ss with
      | nil => rfl
      | cons t ss =>
        obtain ⟨d, ds, rfl⟩ := List.exists_cons_of_ne_nil (hne t List.mem_cons_self)
        have hd : p d = false := hhead _ rfl
        rw [List.foldr_cons, List.foldr_nil, glue, hd, Bool.and_false, if_neg Bool.false_ne_true]
    | cons d s =>
      have hd : p d = true := hall.2 d List.mem_cons_self
      rw [List.foldr_cons, ih (List.cons_ne_nil _ _) hall.2, glue, hall.1, hd]
      rfl

/-- **A text has one cut.** -/
theorem segments_flatten (h : IsCut p ss) : segments p ss.flatten = ss := by
  induction ss with
  | nil => rfl
  | cons s ss ih =>
    obtain ⟨hs, hhead, hss⟩ := IsCut.cons_iff.1 h
    have hjoin : segments p (s :: ss).flatten = s.foldr (glue p) ss := by
      rw [List.flatten_cons, segments, List.foldr_append]
      change s.foldr (glue p) (segments p ss.flatten) = _
      rw [ih hss]
    rw [hjoin]
    cases hrun : isRun p s with
    | true =>
      refine foldr_glue_run hs.ne_nil (hs.all_of_isRun hrun) (fun t ht => hss.ne_nil_of_mem ht)
        fun t ht => ?_
      exact Bool.eq_false_iff.2 fun ht' => hhead t ht ⟨hrun, ht'⟩
    | false =>
      obtain ⟨c, hc, rfl⟩ := hs.exists_of_not_isRun hrun
      cases ss with
      | nil => rfl
      | cons t ss =>
        obtain ⟨d, ds, rfl⟩ := List.exists_cons_of_ne_nil (hss.ne_nil_of_mem List.mem_cons_self)
        rw [List.foldr_cons, List.foldr_nil, glue, hc, Bool.false_and, if_neg Bool.false_ne_true]

theorem forall_mem_segments {P : Char → Prop} {cs : List Char} (h : ∀ c ∈ cs, P c) :
    ∀ s ∈ segments p cs, ∀ c ∈ s, P c := by
  intro s hs c hc
  refine h c ?_
  rw [← flatten_segments p cs]
  exact List.mem_flatten.2 ⟨s, hs, hc⟩

/-! ## A run inside of a text -/

namespace IsCut

theorem append_iff : IsCut p (ss ++ ts) ↔ IsCut p ss ∧ IsCut p ts ∧
    ∀ s ∈ ss.getLast?, ∀ t ∈ ts.head?, ¬ (isRun p s ∧ isRun p t) := by
  constructor
  · rintro ⟨hsegment, hapart⟩
    rw [List.isChain_append] at hapart
    rw [List.forall_mem_append] at hsegment
    exact ⟨⟨hsegment.1, hapart.1⟩, ⟨hsegment.2, hapart.2.1⟩, hapart.2.2⟩
  · rintro ⟨hss, hts, hapart⟩
    exact ⟨List.forall_mem_append.2 ⟨hss.segment, hts.segment⟩,
      List.isChain_append.2 ⟨hss.apart, hts.apart, hapart⟩⟩

/-- A text opens with a character of the class if a run is its first segment. -/
theorem head?_flatten_iff (h : IsCut p ss) : (∀ c ∈ ss.flatten.head?, p c = false) ↔
    ∀ t ∈ ss.head?, isRun p t = false := by
  cases ss with
  | nil => simp
  | cons t ss =>
    obtain ⟨d, ds, rfl⟩ := List.exists_cons_of_ne_nil (h.ne_nil_of_mem List.mem_cons_self)
    simp [isRun]

/-- A text ends in a character of the class if a run is its last segment. -/
theorem getLast?_flatten_iff (h : IsCut p ss) : (∀ c ∈ ss.flatten.getLast?, p c = false) ↔
    ∀ t ∈ ss.getLast?, isRun p t = false := by
  rcases List.eq_nil_or_concat ss with rfl | ⟨ss, t, rfl⟩
  · simp
  · rw [List.concat_eq_append] at h ⊢
    have ht := h.segment t (by simp)
    rw [List.flatten_append, List.flatten_singleton, List.getLast?_append_of_ne_nil _ ht.ne_nil,
      List.getLast?_append_of_ne_nil _ (List.cons_ne_nil _ _), List.getLast?_singleton]
    constructor
    · rintro hlast t' ht'
      cases ht'
      refine Bool.eq_false_iff.2 fun hrun => ?_
      -- the last character of a run is of the class
      have hall := ht.all_of_isRun hrun _ (List.getLast_mem ht.ne_nil)
      rw [hlast _ (List.getLast?_eq_some_getLast ht.ne_nil)] at hall
      cases hall
    · rintro hlast c hc
      obtain ⟨d, hd, rfl⟩ := ht.exists_of_not_isRun (hlast t rfl)
      cases hc
      exact hd

/-- What stands before a run does not end in a character of the class. -/
theorem getLast?_append_of_run (h : IsCut p (s :: ss)) (a : List Char) :
    ∀ t ∈ ss.head?, isRun p t → ∀ c ∈ (a ++ s).getLast?, p c = false := by
  intro t ht hrun
  obtain ⟨hs, hapart, -⟩ := cons_iff.1 h
  have hs' : isRun p s = false := Bool.eq_false_iff.2 fun hs' => hapart t ht ⟨hs', hrun⟩
  obtain ⟨c, hc, rfl⟩ := hs.exists_of_not_isRun hs'
  simpa using hc

end IsCut

/-- **A run is a segment of a text** where the characters next to it are not of the class. -/
theorem segments_eq_append_cons_iff (hne : s ≠ []) (hall : ∀ c ∈ s, p c) :
    segments p cs = ss ++ s :: ts ↔ ∃ a b, cs = a ++ s ++ b ∧ segments p a = ss ∧
      segments p b = ts ∧ (∀ c ∈ a.getLast?, p c = false) ∧ ∀ c ∈ b.head?, p c = false := by
  have hrun : isRun p s = true := by
    obtain ⟨d, ds, rfl⟩ := List.exists_cons_of_ne_nil hne
    exact hall d List.mem_cons_self
  constructor
  · intro h
    have hcut := isCut_segments p cs
    rw [h] at hcut
    obtain ⟨hss, hcons, hlast⟩ := IsCut.append_iff.1 hcut
    obtain ⟨-, hhead, hts⟩ := IsCut.cons_iff.1 hcons
    refine ⟨ss.flatten, ts.flatten, ?_, segments_flatten hss, segments_flatten hts,
      hss.getLast?_flatten_iff.2 fun t ht => ?_, hts.head?_flatten_iff.2 fun t ht => ?_⟩
    · rw [← flatten_segments p cs, h, List.flatten_append, List.flatten_cons, List.append_assoc]
    · exact Bool.eq_false_iff.2 fun ht' => hlast t ht s rfl ⟨ht', hrun⟩
    · exact Bool.eq_false_iff.2 fun ht' => hhead t ht ⟨hrun, ht'⟩
  · rintro ⟨a, b, rfl, rfl, rfl, hlast, hhead⟩
    rw [← flatten_segments p a, (isCut_segments p a).getLast?_flatten_iff] at hlast
    rw [← flatten_segments p b, (isCut_segments p b).head?_flatten_iff] at hhead
    have hcons : IsCut p (s :: segments p b) := by
      refine IsCut.cons_iff.2 ⟨Or.inl ⟨hne, hall⟩, fun t ht hruns => ?_, isCut_segments p b⟩
      exact absurd (hruns.2.symm.trans (hhead t ht)) (by decide)
    have hcut : IsCut p (segments p a ++ s :: segments p b) := by
      refine IsCut.append_iff.2 ⟨isCut_segments p a, hcons, fun t ht s' _ hruns => ?_⟩
      exact absurd (hruns.1.symm.trans (hlast t ht)) (by decide)
    rw [← segments_flatten hcut, List.flatten_append, List.flatten_cons, flatten_segments,
      flatten_segments, List.append_assoc]

/-! ## Runs -/

/-- The runs of a text. -/
def runs (p : Char → Bool) (cs : List Char) : List (List Char) := (segments p cs).filter (isRun p)

variable {a b x : List Char}

/-- **A character outside of the class ends the runs on both sides.** -/
theorem segments_append_cons (hc : p c = false) (a b : List Char) :
    segments p (a ++ c :: b) = segments p a ++ [c] :: segments p b := by
  have hcut : IsCut p ([c] :: segments p b) := by
    refine IsCut.cons_iff.2 ⟨.single p c, fun t _ hruns => ?_, isCut_segments p b⟩
    exact absurd (hruns.1.symm.trans hc) (by decide)
  have hparts : IsCut p (segments p a ++ [c] :: segments p b) := by
    refine IsCut.append_iff.2 ⟨isCut_segments p a, hcut, fun s _ t ht hruns => ?_⟩
    cases ht
    exact absurd (hruns.2.symm.trans hc) (by decide)
  rw [← segments_flatten hparts, List.flatten_append, List.flatten_cons, flatten_segments,
    flatten_segments]
  rfl

theorem runs_append_cons (hc : p c = false) (a b : List Char) :
    runs p (a ++ c :: b) = runs p a ++ runs p b := by
  have hrun : isRun p [c] = false := hc
  rw [runs, segments_append_cons hc, List.filter_append, List.filter_cons, hrun]
  rfl

theorem runs_cons (hc : p c = false) (b : List Char) : runs p (c :: b) = runs p b :=
  runs_append_cons hc [] b

/-- Text without a character of the class. -/
theorem runs_append_append (hx : ∀ c ∈ x, p c = false) (hne : x ≠ []) (a b : List Char) :
    runs p (a ++ (x ++ b)) = runs p a ++ runs p b := by
  induction x generalizing a with
  | nil => exact absurd rfl hne
  | cons c x ih =>
    rw [List.forall_mem_cons] at hx
    rw [List.cons_append, runs_append_cons hx.1]
    cases x with
    | nil => rfl
    | cons d x => rw [← List.nil_append (_ :: x ++ b), ih hx.2 (List.cons_ne_nil _ _) []]; rfl

/-- Where no run goes from one text into the other, the runs are those of the two. -/
theorem runs_append (h : (∀ c ∈ a.getLast?, p c = false) ∨ ∀ c ∈ b.head?, p c = false) :
    runs p (a ++ b) = runs p a ++ runs p b := by
  rcases h with h | h
  · rcases List.eq_nil_or_concat a with rfl | ⟨l, c, rfl⟩
    · rfl
    · have hc : p c = false := h c (by simp)
      rw [List.concat_eq_append, List.append_assoc, List.singleton_append, runs_append_cons hc,
        ← List.append_nil (l ++ [c]), List.append_assoc, List.singleton_append, runs_append_cons hc,
        show runs p [] = [] from rfl, List.append_nil]
  · cases b with
    | nil => rw [List.append_nil, show runs p [] = [] from rfl, List.append_nil]
    | cons c b => rw [runs_append_cons (h c rfl), runs_cons (h c rfl)]

end NodeFormula
