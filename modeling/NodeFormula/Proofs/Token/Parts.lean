import NodeFormula.Proofs.Token.Spans
/-!
# NodeFormula — the lexemes of a part of a text

Where no lexeme is cut, a part of a text is read as it is read within the whole, with the
spans moved to the left: `lexemes_snippet`. The lexemes in front of the part are skipped one
by one (`exists_lexemesFrom_of_append`); behind it the text may end, since a token that is
read in front of something is also read in front of less (`scan_of_append`).
-/

namespace NodeFormula

/-! ## Moving spans -/

/-- A span moved to the left. -/
def Span.shift (k : Nat) (s : Span) : Span := ⟨s.start - k, s.stop - k⟩

/-- A lexeme moved to the left. -/
def Lexeme.shift (k : Nat) (l : Lexeme) : Lexeme := ⟨l.token, l.span.shift k⟩

@[simp] theorem Lexeme.token_shift (k : Nat) (l : Lexeme) : (l.shift k).token = l.token := rfl

@[simp] theorem Lexeme.span_shift (k : Nat) (l : Lexeme) : (l.shift k).span = l.span.shift k := rfl

/-! ## What a list of lexemes covers -/

/-- The offset where a list of lexemes ends, if it starts behind the offset `p`. -/
def endOf (p : Nat) (ls : List Lexeme) : Nat := ls.foldl (fun _ l => l.span.stop) p

@[simp] theorem endOf_nil (p : Nat) : endOf p [] = p := rfl

@[simp] theorem endOf_cons (p : Nat) (l : Lexeme) (ls : List Lexeme) :
    endOf p (l :: ls) = endOf l.span.stop ls := rfl

@[simp] theorem endOf_append (p : Nat) (ls ls' : List Lexeme) :
    endOf p (ls ++ ls') = endOf (endOf p ls) ls' := List.foldl_append

theorem endOf_shift (k p : Nat) (ls : List Lexeme) :
    endOf (p - k) (ls.map (Lexeme.shift k)) = endOf p ls - k := by
  induction ls generalizing p with
  | nil => rfl
  | cons l ls ih => exact ih l.span.stop

/-- Only before the first lexeme does it matter where the list starts. -/
theorem endOf_eq {ls : List Lexeme} (h : ls ≠ []) (p q : Nat) : endOf p ls = endOf q ls := by
  cases ls with
  | nil => exact absurd rfl h
  | cons l ls => rfl

/-- The span from the start of the first lexeme to the end of the last one. -/
def extent : List Lexeme → Span
  | [] => .point 0
  | l :: ls => ⟨l.span.start, max (endOf 0 (l :: ls)) l.span.start⟩

/-- Lexemes one after the other, none of them empty. -/
structure InOrder (ls : List Lexeme) : Prop where
  /-- No lexeme is empty. -/
  nonempty : ∀ l ∈ ls, l.span.start < l.span.stop
  /-- Each ends before the next ones start. -/
  ordered : ls.Pairwise fun l l' => l.span.stop ≤ l'.span.start

namespace InOrder

variable {l : Lexeme} {ls ls' : List Lexeme}

theorem sublist (h : InOrder ls) (hsub : ls'.Sublist ls) : InOrder ls' :=
  ⟨fun l hl => h.nonempty l (hsub.subset hl), h.ordered.sublist hsub⟩

theorem stop_le_endOf (h : InOrder ls) (p : Nat) : ∀ l ∈ ls, l.span.stop ≤ endOf p ls := by
  induction ls generalizing p with
  | nil => exact List.forall_mem_nil _
  | cons l ls ih =>
    have ih := ih (h.sublist (List.sublist_cons_self l ls)) l.span.stop
    refine List.forall_mem_cons.2 ⟨?_, ih⟩
    cases ls with
    | nil => exact Nat.le_refl _
    | cons l' ls =>
      have hnext := (List.pairwise_cons.1 h.ordered).1 l' List.mem_cons_self
      have hlast := ih l' List.mem_cons_self
      have := h.nonempty l' (List.mem_cons_of_mem _ List.mem_cons_self)
      rw [endOf_cons]
      omega

theorem exists_endOf (hne : ls ≠ []) (p : Nat) : ∃ l ∈ ls, endOf p ls = l.span.stop := by
  induction ls generalizing p with
  | nil => exact absurd rfl hne
  | cons l ls ih =>
    cases ls with
    | nil => exact ⟨l, List.mem_cons_self, rfl⟩
    | cons l' ls =>
      obtain ⟨last, hlast, heq⟩ := ih (List.cons_ne_nil l' ls) l.span.stop
      exact ⟨last, List.mem_cons_of_mem _ hlast, heq⟩

/-- The extent of lexemes in order ends where the last one ends. -/
theorem extent_stop (h : InOrder ls) (hne : ls ≠ []) (p : Nat) : (extent ls).stop = endOf p ls := by
  cases ls with
  | nil => exact absurd rfl hne
  | cons l ls =>
    have hfirst := h.nonempty l List.mem_cons_self
    have hlast := h.stop_le_endOf 0 l List.mem_cons_self
    rw [extent, Nat.max_eq_left (by omega)]
    rfl

/-- The extent is the least span over the lexemes. -/
theorem covers (h : InOrder ls) : ∀ l ∈ ls,
    (extent ls).start ≤ l.span.start ∧ l.span.stop ≤ (extent ls).stop := by
  intro l hl
  refine ⟨?_, ?_⟩
  · cases ls with
    | nil => cases hl
    | cons first ls =>
      rcases List.mem_cons.1 hl with rfl | hl
      · exact Nat.le_refl _
      · have := (List.pairwise_cons.1 h.ordered).1 l hl
        have := h.nonempty first List.mem_cons_self
        dsimp only [extent]
        omega
  · rw [h.extent_stop (List.ne_nil_of_mem hl) 0]
    exact h.stop_le_endOf 0 l hl

theorem exists_first (hne : ls ≠ []) : ∃ l ∈ ls, (extent ls).start = l.span.start := by
  cases ls with
  | nil => exact absurd rfl hne
  | cons l ls => exact ⟨l, List.mem_cons_self, rfl⟩

theorem extent_nonempty (h : InOrder ls) (hne : ls ≠ []) : (extent ls).start < (extent ls).stop := by
  obtain ⟨l, hl, hstart⟩ := exists_first hne
  have hstop := (h.covers l hl).2
  have := h.nonempty l hl
  omega

/-- What covers some of the lexemes lies inside what covers all. -/
theorem extent_subset (h : InOrder ls) (hsub : ls'.Sublist ls) (hne : ls' ≠ []) :
    (extent ls).start ≤ (extent ls').start ∧ (extent ls').stop ≤ (extent ls).stop := by
  obtain ⟨first, hfirst, hstart⟩ := exists_first hne
  obtain ⟨last, hlast, hstop⟩ := exists_endOf hne 0
  rw [hstart, (h.sublist hsub).extent_stop hne 0, hstop]
  exact ⟨(h.covers first (hsub.subset hfirst)).1, (h.covers last (hsub.subset hlast)).2⟩

/-- What covers earlier lexemes ends before what covers later ones. -/
theorem extent_stop_le (h : InOrder (ls ++ ls')) (hne : ls ≠ []) (hne' : ls' ≠ []) :
    (extent ls).stop ≤ (extent ls').start := by
  obtain ⟨last, hlast, hstop⟩ := exists_endOf hne 0
  obtain ⟨first, hfirst, hstart⟩ := exists_first hne'
  rw [(h.sublist (List.sublist_append_left ls ls')).extent_stop hne 0, hstop, hstart]
  exact (List.pairwise_append.1 h.ordered).2.2 last hlast first hfirst

end InOrder

/-- Each token takes at least one byte. -/
theorem Lexeme.StandsIn.span_nonempty {source : List Char} {l : Lexeme} (h : l.StandsIn source) :
    l.span.start < l.span.stop := by
  obtain ⟨front, back, -, hspan, hscan⟩ := h
  have hshorter := scan_shorter hscan
  rw [hspan]
  cases htext : l.token.text.toList with
  | nil =>
    rw [htext, List.nil_append] at hshorter
    exact absurd hshorter (Nat.lt_irrefl _)
  | cons c cs =>
    have := c.utf8Size_pos
    dsimp only
    rw [byteLength_cons]
    omega

theorem inOrder_of_lexemes {source : String} {ls : List Lexeme} (h : lexemes source = .ok ls) :
    InOrder ls := by
  have hspelled := spelled_of_lexemesFrom 0 source.toList [] ls h byteLength_nil.symm
  exact ⟨fun l hl => (hspelled.stands l hl).span_nonempty, hspelled.ordered⟩

/-! ## Reading a part -/

/-- A token is read in front of less if it is read in front of more. -/
theorem scan_of_append {t : Token} {mid post : List Char}
    (h : scan (t.text.toList ++ (mid ++ post)) = some (t, mid ++ post)) :
    scan (t.text.toList ++ mid) = some (t, mid) := by
  have hw := written_of_scan h
  obtain ⟨t', rest, hscan, hle⟩ := exists_scan hw mid
  have htext := eq_append_of_scan hscan
  have hw' := written_of_scan hscan
  -- what is read there may be read here, where nothing longer is
  have hback : t.text.toList ++ (mid ++ post) = t'.text.toList ++ (rest ++ post) := by
    rw [← List.append_assoc, htext, List.append_assoc]
  have hlonger := length_le_of_scan h hw' hback
  simp only [List.length_append] at hlonger
  obtain ⟨hsame, rfl⟩ := List.append_inj' htext (by omega)
  -- tokens of the same text are the same
  have hend := scan_end hw
  rw [hsame, scan_end hw'] at hend
  cases hend
  exact hscan

/-- **The lexemes in front are skipped.** The rest of the lexemes is read from where the first of
them starts. -/
theorem exists_lexemesFrom_of_append (offset : Nat) (cs : List Char) :
    ∀ (front : List Lexeme) (l : Lexeme) (ls : List Lexeme),
      lexemesFrom offset cs = .ok (front ++ l :: ls) →
      ∃ pre rest, cs = pre ++ rest ∧ l.span.start = offset + byteLength pre ∧
        lexemesFrom l.span.start rest = .ok (l :: ls) := by
  fun_induction lexemesFrom offset cs with
  | case1 offset =>
    intro front l ls h
    cases front <;> cases h
  | case2 offset c r hgap ih =>
    intro front l ls h
    obtain ⟨pre, rest, rfl, hstart, hrest⟩ := ih front l ls h
    refine ⟨c :: pre, rest, rfl, ?_, hrest⟩
    rw [hstart, byteLength_cons, utf8Size_of_isGap hgap, Nat.add_assoc]
  | case3 offset c r hgap hnone =>
    intro front l ls h
    cases h
  | case4 offset c r hgap t rest hread stop ls' hls ih =>
    intro front l ls h
    have hstop : stop = offset + t.text.utf8ByteSize :=
      congrArg (offset + ·) (byteLength_taken hread)
    cases front with
    | nil =>
      cases h
      rw [hstop] at hls ⊢
      exact ⟨[], c :: r, rfl, rfl, lexemesFrom_of_scan hread hls⟩
    | cons l' front =>
      cases h
      obtain ⟨pre, rest', rfl, hstart, hrest⟩ := ih front l ls hls
      refine ⟨t.text.toList ++ pre, rest', ?_, ?_, hrest⟩
      · rw [eq_append_of_scan hread, List.append_assoc]
      · rw [hstart, byteLength_append, byteLength_toList, ← Nat.add_assoc, ← hstop]
  | case5 offset c r hgap t rest hread stop err herr ih =>
    intro front l ls h
    cases h

/-- **The lexemes behind may be missing.** The text may end with the last lexeme of a part and
start anywhere in front of it. -/
theorem exists_lexemesFrom_of_prefix (offset : Nat) (cs : List Char) :
    ∀ ls back : List Lexeme, ls ≠ [] → lexemesFrom offset cs = .ok (ls ++ back) →
      ∃ mid post, cs = mid ++ post ∧ endOf offset ls = offset + byteLength mid ∧
        ∀ k ≤ offset, lexemesFrom (offset - k) mid = .ok (ls.map (Lexeme.shift k)) := by
  fun_induction lexemesFrom offset cs with
  | case1 offset =>
    intro ls back hne h
    cases ls with
    | nil => exact absurd rfl hne
    | cons l ls => cases h
  | case2 offset c r hgap ih =>
    intro ls back hne h
    obtain ⟨mid, post, rfl, hend, hmid⟩ := ih ls back hne h
    refine ⟨c :: mid, post, rfl, ?_, fun k hk => ?_⟩
    · rw [endOf_eq hne offset (offset + 1), hend, byteLength_cons, utf8Size_of_isGap hgap,
        Nat.add_assoc]
    · rw [lexemesFrom, if_pos hgap, ← hmid k (by omega), Nat.sub_add_comm hk]
  | case3 offset c r hgap hnone =>
    intro ls back hne h
    cases h
  | case4 offset c r hgap t rest hread stop ls' hls ih =>
    intro ls back hne h
    cases ls with
    | nil => exact absurd rfl hne
    | cons l ls =>
      cases h
      have hcs := eq_append_of_scan hread
      have hstop : stop = offset + t.text.utf8ByteSize :=
        congrArg (offset + ·) (byteLength_taken hread)
      rw [hcs] at hread
      -- the first lexeme stands at the same place of the part
      have hfirst : ∀ k ≤ offset, ∀ mid more, scan (t.text.toList ++ mid) = some (t, mid) →
          lexemesFrom (stop - k) mid = .ok more →
          lexemesFrom (offset - k) (t.text.toList ++ mid)
            = .ok (Lexeme.shift k ⟨t, ⟨offset, stop⟩⟩ :: more) := by
        intro k hk mid more hscan hmore
        have hmoved : stop - k = offset - k + t.text.utf8ByteSize := by
          rw [hstop, Nat.sub_add_comm hk]
        rw [hmoved] at hmore
        rw [lexemesFrom_of_scan hscan hmore, Lexeme.shift, Span.shift, hmoved]
      cases ls with
      | nil =>
        refine ⟨t.text.toList, rest, hcs, ?_, fun k hk => ?_⟩
        · rw [endOf_cons, endOf_nil, byteLength_toList]
          exact hstop
        · have hnil : lexemesFrom (stop - k) [] = .ok [] := by rw [lexemesFrom]
          have hscan : scan (t.text.toList ++ []) = some (t, []) := by
            rw [List.append_nil]
            exact scan_end (written_of_scan hread)
          have hone := hfirst k hk [] [] hscan hnil
          rwa [List.append_nil] at hone
      | cons l' ls =>
        obtain ⟨mid, post, rfl, hend, hmid⟩ := ih (l' :: ls) back (List.cons_ne_nil l' ls) hls
        refine ⟨t.text.toList ++ mid, post, ?_, ?_, fun k hk => ?_⟩
        · rw [hcs, List.append_assoc]
        · rw [endOf_cons, hend, byteLength_append, byteLength_toList, ← Nat.add_assoc, ← hstop]
        · have hle : offset ≤ stop := Nat.le_add_right _ _
          exact hfirst k hk mid _ (scan_of_append hread) (hmid k (by omega))
  | case5 offset c r hgap t rest hread stop err herr ih =>
    intro ls back hne h
    cases h

/-- **A part of a text is read as it is within the whole**, moved to where it starts. -/
theorem lexemes_snippet {source : String} {front ls back : List Lexeme} (hne : ls ≠ [])
    (h : lexemes source = .ok (front ++ (ls ++ back))) :
    lexemes ((extent ls).snippet source) = .ok (ls.map (Lexeme.shift (extent ls).start)) := by
  have horder : InOrder ls :=
    (inOrder_of_lexemes h).sublist ((List.sublist_append_left ls back).trans
      (List.sublist_append_right front (ls ++ back)))
  cases ls with
  | nil => exact absurd rfl hne
  | cons l ls =>
    obtain ⟨pre, rest, hsource, hstart, hrest⟩ :=
      exists_lexemesFrom_of_append 0 source.toList front l (ls ++ back) h
    obtain ⟨mid, post, rfl, hend, hmid⟩ :=
      exists_lexemesFrom_of_prefix l.span.start rest (l :: ls) back hne hrest
    have hextent : extent (l :: ls) = ⟨byteLength pre, byteLength pre + byteLength mid⟩ := by
      have hstop := horder.extent_stop hne l.span.start
      rw [Nat.zero_add] at hstart
      rw [hend, hstart] at hstop
      rw [← hstop, ← hstart]
      rfl
    have hslice : ((extent (l :: ls)).snippet source).toList = mid := by
      rw [Span.snippet, String.toList_ofList, hsource, hextent, Span.slice_append]
    have hmoved := hmid l.span.start (Nat.le_refl _)
    rw [Nat.sub_self] at hmoved
    rw [lexemes, hslice, hmoved]
    rfl

end NodeFormula
