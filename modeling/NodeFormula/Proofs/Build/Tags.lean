import NodeFormula.Proofs.Build.Draft
/-!
# NodeFormula — what a tag tells

A tag is the name of a function and a digest, then `#` and a number if it repeats, then
`/` and a name if the function has more than one node. No part holds the mark that ends
it, so a tag gives its parts back: the base and the number (`withOccurrence_inj`), and the
stage (`Stage.tag_inj`). The identity of a socket gives back the name of its node and its
index (`socketIdentity_inj`). No tag is given out twice, whatever the names of the functions are
(`issued_nodup`).
-/

namespace NodeFormula

/-- Texts that end where a mark begins. -/
theorem append_inj_of_marks {mark : Char → Prop} {l l' r r' : List Char} (hl : ∀ c ∈ l, ¬ mark c)
    (hl' : ∀ c ∈ l', ¬ mark c) (hr : ∀ d ∈ r.head?, mark d) (hr' : ∀ d ∈ r'.head?, mark d)
    (h : l ++ r = l' ++ r') : l = l' ∧ r = r' := by
  induction l generalizing l' with
  | nil =>
    cases l' with
    | nil => exact ⟨rfl, h⟩
    | cons d l' =>
      rw [List.nil_append] at h
      exact absurd (hr d (by rw [h]; rfl)) (hl' d List.mem_cons_self)
  | cons d l ih =>
    cases l' with
    | nil =>
      rw [List.nil_append] at h
      exact absurd (hr' d (by rw [← h]; rfl)) (hl d List.mem_cons_self)
    | cons d' l' =>
      rw [List.cons_append, List.cons_append, List.cons.injEq] at h
      obtain ⟨rfl, h⟩ := h
      obtain ⟨rfl, rfl⟩ := ih (fun c hc => hl c (List.mem_cons_of_mem _ hc))
        (fun c hc => hl' c (List.mem_cons_of_mem _ hc)) h
      exact ⟨rfl, rfl⟩

/-- Texts that end where their mark begins. -/
theorem append_inj_of_mark {c : Char} {l l' r r' : List Char} (hl : c ∉ l) (hl' : c ∉ l')
    (hr : ∀ d ∈ r.head?, d = c) (hr' : ∀ d ∈ r'.head?, d = c) (h : l ++ r = l' ++ r') :
    l = l' ∧ r = r' :=
  @append_inj_of_marks (· = c) l l' r r' (fun _ hd heq => hl (heq ▸ hd))
    (fun _ hd heq => hl' (heq ▸ hd)) hr hr' h

/-- A text without the marks that extend a tag. -/
def Unmarked (s : String) : Prop := '#' ∉ s.toList ∧ '/' ∉ s.toList

instance (s : String) : Decidable (Unmarked s) := inferInstanceAs (Decidable (_ ∧ _))

theorem mem_toDigits_sixteen {c : Char} {n : Nat} (h : c ∈ Nat.toDigits 16 n) :
    ∃ d : Nat, c = d.digitChar := by
  have hcore : ∀ (fuel n : Nat) (cs : List Char), (∀ c ∈ cs, ∃ d : Nat, c = d.digitChar) →
      ∀ c ∈ Nat.toDigitsCore 16 fuel n cs, ∃ d : Nat, c = d.digitChar := by
    intro fuel
    induction fuel with
    | zero => exact fun n cs hcs => hcs
    | succ fuel ih =>
      intro n cs hcs
      have hnext : ∀ c ∈ (n % 16).digitChar :: cs, ∃ d : Nat, c = d.digitChar := by
        intro c hc
        rcases List.mem_cons.1 hc with rfl | hc
        · exact ⟨_, rfl⟩
        · exact hcs c hc
      rw [Nat.toDigitsCore]
      split
      · exact hnext
      · exact ih _ _ hnext
  exact hcore _ _ _ (fun c hc => absurd hc List.not_mem_nil) c h

/-- A character that is no digit is in no word of a digest. -/
theorem not_mem_hex16 {c : Char} (hc : ∀ d : Nat, d.digitChar ≠ c) (n : UInt64) :
    c ∉ (Tag.hex16 n).toList := by
  intro hmem
  rw [Tag.hex16, String.toList_ofList, List.mem_append] at hmem
  rcases hmem with hmem | hmem
  · exact hc 0 (List.mem_replicate.1 hmem).2.symm
  · obtain ⟨d, hd⟩ := mem_toDigits_sixteen hmem
    exact hc d hd.symm

theorem unmarked_hex16 (n : UInt64) : Unmarked (Tag.hex16 n) :=
  ⟨not_mem_hex16 (fun _ => Nat.digitChar_ne '#' (by decide)) n,
    not_mem_hex16 (fun _ => Nat.digitChar_ne '/' (by decide)) n⟩

/-- A number in a text has no mark in it. -/
theorem not_mem_toString {c : Char} (hc : c.isDigit = false) (n : Nat) :
    c ∉ (toString n).toList := by
  intro hmem
  have hdigit := Nat.isDigit_of_mem_toDigits (b := 10) (by decide) (by decide)
    (Nat.toList_repr (n := n) ▸ hmem)
  rw [hc] at hdigit
  cases hdigit

theorem toString_toList_inj {m n : Nat} (h : (toString m).toList = (toString n).toList) :
    m = n := by
  have hdigits : Nat.toDigits 10 m = Nat.toDigits 10 n := by
    rw [← Nat.toList_repr, ← Nat.toList_repr]
    exact h
  have hm := Nat.ofDigitChars_toDigits (b := 10) (n := m) (by decide) (by decide)
  rw [hdigits, Nat.ofDigitChars_toDigits (by decide) (by decide)] at hm
  exact hm.symm

namespace Tag

theorem text_inj {a b : Tag} : a.text = b.text ↔ a = b := by
  cases a
  cases b
  simp

theorem unmarked_derive [TagDigest] {function : String} (h : Unmarked function)
    (identities : List String) : Unmarked (derive function identities).text := by
  have hhex := unmarked_hex16 (TagDigest.digest function identities)
  constructor
  · simpa [derive] using ⟨h.1, hhex.1⟩
  · simpa [derive] using ⟨h.2, hhex.2⟩

theorem withOccurrence_toList (t : Tag) (n : Nat) :
    (t.withOccurrence n).text.toList
      = t.text.toList ++ if n = 0 then [] else '#' :: (toString n).toList := by
  rw [withOccurrence]
  split
  · simp
  · simp

/-- **A numbered tag gives back its base and its number.** -/
theorem withOccurrence_inj {a b : Tag} {m n : Nat} (ha : Unmarked a.text) (hb : Unmarked b.text)
    (h : a.withOccurrence m = b.withOccurrence n) : a = b ∧ m = n := by
  have htext := congrArg (fun t : Tag => t.text.toList) h
  simp only [withOccurrence_toList] at htext
  obtain ⟨hbase, hnumber⟩ := append_inj_of_mark ha.1 hb.1 (by split <;> simp) (by split <;> simp)
    htext
  refine ⟨text_inj.1 (String.toList_inj.1 hbase), ?_⟩
  by_cases hm : m = 0
  · by_cases hn : n = 0
    · rw [hm, hn]
    · simp [hm, hn] at hnumber
  · by_cases hn : n = 0
    · simp [hm, hn] at hnumber
    · rw [if_neg hm, if_neg hn, List.cons.injEq] at hnumber
      exact toString_toList_inj hnumber.2

theorem withOccurrence_reverse (t : Tag) {n : Nat} (hn : n ≠ 0) :
    (t.withOccurrence n).text.toList.reverse
      = (toString n).toList.reverse ++ '#' :: t.text.toList.reverse := by
  simp [withOccurrence_toList, hn]

/-- A tag that is numbered gives back its base and its number, whatever the base. -/
theorem numbered_inj {a b : Tag} {m n : Nat} (hm : m ≠ 0) (hn : n ≠ 0)
    (h : a.withOccurrence m = b.withOccurrence n) : a = b ∧ m = n := by
  have htext := congrArg (fun t : Tag => t.text.toList.reverse) h
  simp only [withOccurrence_reverse _ hm, withOccurrence_reverse _ hn] at htext
  have hdigits : ∀ k : Nat, '#' ∉ (toString k).toList.reverse := fun k hk =>
    not_mem_toString (by decide) k (List.mem_reverse.1 hk)
  obtain ⟨hnumber, hbase⟩ := append_inj_of_mark (hdigits m) (hdigits n) (by simp) (by simp) htext
  rw [List.cons.injEq, List.reverse_inj] at hbase
  exact ⟨text_inj.1 (String.toList_inj.1 hbase.2), toString_toList_inj (List.reverse_inj.1 hnumber)⟩

/-- The base of a function is no tag that is numbered: the point before its digest does not
stand where the mark before a number does. -/
theorem derive_ne_numbered [TagDigest] {f : String} {ids : List String} {t : Tag} {n : Nat}
    (hn : n ≠ 0) : derive f ids ≠ t.withOccurrence n := by
  intro h
  have htext := congrArg (fun t : Tag => t.text.toList.reverse) h
  have hbase : (derive f ids).text.toList.reverse
      = (hex16 (TagDigest.digest f ids)).toList.reverse ++ '.' :: f.toList.reverse := by
    simp [derive]
  simp only [withOccurrence_reverse _ hn, hbase] at htext
  have hdigest : ∀ c ∈ (hex16 (TagDigest.digest f ids)).toList.reverse, ¬ (c = '.' ∨ c = '#') := by
    rintro c hc (rfl | rfl)
    · exact not_mem_hex16 (fun _ => Nat.digitChar_ne '.' (by decide)) _ (List.mem_reverse.1 hc)
    · exact not_mem_hex16 (fun _ => Nat.digitChar_ne '#' (by decide)) _ (List.mem_reverse.1 hc)
  have hnumber : ∀ c ∈ (toString n).toList.reverse, ¬ (c = '.' ∨ c = '#') := by
    rintro c hc (rfl | rfl)
    · exact not_mem_toString (by decide) n (List.mem_reverse.1 hc)
    · exact not_mem_toString (by decide) n (List.mem_reverse.1 hc)
  have hmark := (append_inj_of_marks hdigest hnumber (by simp) (by simp) htext).2
  exact absurd (List.cons.inj hmark).1 (by decide)

/-- **A tag of a function gives back its base and its number**, whatever the name of the
function. -/
theorem derive_withOccurrence_inj [TagDigest] {f f' : String} {ids ids' : List String} {m n : Nat}
    (h : (derive f ids).withOccurrence m = (derive f' ids').withOccurrence n) :
    derive f ids = derive f' ids' ∧ m = n := by
  have hzero : ∀ t : Tag, t.withOccurrence 0 = t := fun _ => rfl
  by_cases hm : m = 0
  · subst hm
    by_cases hn : n = 0
    · subst hn
      exact ⟨h, rfl⟩
    · exact absurd (hzero _ ▸ h) (derive_ne_numbered hn)
  · by_cases hn : n = 0
    · subst hn
      exact absurd (hzero _ ▸ h.symm) (derive_ne_numbered hm)
    · exact numbered_inj hm hn h

theorem slash_not_mem_withOccurrence {t : Tag} (h : Unmarked t.text) (n : Nat) :
    '/' ∉ (t.withOccurrence n).text.toList := by
  rw [withOccurrence_toList, List.mem_append, not_or]
  refine ⟨h.2, ?_⟩
  split
  · exact List.not_mem_nil
  · rw [List.mem_cons, not_or]
    exact ⟨by decide, not_mem_toString (by decide) n⟩

end Tag

/-- **The tag of a stage gives back the tag of the call, and the stage.** -/
theorem Stage.tag_inj {s s' : Stage} {t t' : Tag} (ht : '/' ∉ t.text.toList)
    (ht' : '/' ∉ t'.text.toList) (h : s.tag t = s'.tag t') : t = t' ∧ s.child = s'.child := by
  have hlist : ∀ (s : Stage) (t : Tag), (s.tag t).text.toList
      = t.text.toList ++ (s.child.map fun c => '/' :: c.toList).getD [] := by
    intro s t
    cases hc : s.child <;> simp [Stage.tag, hc, Tag.child]
  have htext := congrArg (fun t : Tag => t.text.toList) h
  simp only [hlist] at htext
  have hhead : ∀ s : Stage, ∀ d ∈ ((s.child.map fun c => '/' :: c.toList).getD []).head?, d = '/' := by
    intro s d hd
    cases hc : s.child <;> simp [hc] at hd
    exact hd.symm
  obtain ⟨hbase, hchild⟩ := append_inj_of_mark ht ht' (hhead s) (hhead s') htext
  refine ⟨Tag.text_inj.1 (String.toList_inj.1 hbase), ?_⟩
  cases hc : s.child with
  | none =>
    cases hc' : s'.child with
    | none => rfl
    | some c' => simp [hc, hc'] at hchild
  | some c =>
    cases hc' : s'.child with
    | none => simp [hc, hc'] at hchild
    | some c' =>
      simp only [hc, hc', Option.map_some, Option.getD_some, List.cons.injEq, true_and] at hchild
      rw [String.toList_inj.1 hchild]

/-- **The identity of a socket gives back the name of its node and its index.** -/
theorem socketIdentity_inj {a b : String} {m n : Nat}
    (h : socketIdentity a m = socketIdentity b n) : a = b ∧ m = n := by
  have hrev : ∀ (a : String) (m : Nat), (socketIdentity a m).toList.reverse
      = (toString m).toList.reverse ++ ':' :: a.toList.reverse := by
    intro a m
    simp [socketIdentity]
  have htext := congrArg (fun s : String => s.toList.reverse) h
  simp only [hrev] at htext
  have hdigits : ∀ m : Nat, ':' ∉ (toString m).toList.reverse := fun m hm =>
    not_mem_toString (by decide) m (List.mem_reverse.1 hm)
  obtain ⟨hnumber, hname⟩ := append_inj_of_mark (hdigits m) (hdigits n) (by simp) (by simp) htext
  rw [List.cons.injEq, List.reverse_inj] at hname
  exact ⟨String.toList_inj.1 hname.2, toString_toList_inj (List.reverse_inj.1 hnumber)⟩

/-- It is the identity of no constant. -/
theorem socketIdentity_ne {a : String} {n : Nat} :
    socketIdentity a n ≠ Tag.floatIdentity ∧ socketIdentity a n ≠ Tag.vectorIdentity := by
  have hcolon : ':' ∈ (socketIdentity a n).toList := by simp [socketIdentity]
  constructor
  · intro h
    rw [h] at hcolon
    exact absurd hcolon (by decide)
  · intro h
    rw [h] at hcolon
    exact absurd hcolon (by decide)

/-! ## The tags of a draft -/

/-- The stages of a function, or of a name that is no function's. -/
def stages? (function : String) : Option (List Stage) :=
  if function = "combine" then some [.single .combineXyz]
  else if function = "value" then some [.single .value]
  else (Catalogue.get? function).map Builtin.stages

/-- A key of a function, or of a name that is no function's. -/
def Key.Sound (k : Key) : Prop := Unmarked k.function

section

variable [TagDigest] {keys : List Key}

theorem Key.Sound.base {k : Key} (h : k.Sound) : Unmarked k.base.text := Tag.unmarked_derive h _

/-- The tag that a key gets next. -/
def Key.next (keys : List Key) (k : Key) : Tag :=
  k.base.withOccurrence ((keys.map Key.base).count k.base)

/-- The tags that have been given out. -/
def issued : List Key → List Tag
  | [] => []
  | k :: keys => k.next keys :: issued keys

/-- A tag that was given out belongs to a key, and to the number of those before it. -/
theorem mem_issued {t : Tag} (h : t ∈ issued keys) :
    ∃ k earlier, k :: earlier <:+ keys ∧ t = k.next earlier := by
  induction keys with
  | nil => exact absurd h List.not_mem_nil
  | cons k keys ih =>
    rcases List.mem_cons.1 h with rfl | h
    · exact ⟨k, keys, List.suffix_refl _, rfl⟩
    · obtain ⟨k', earlier, hsuffix, ht⟩ := ih h
      exact ⟨k', earlier, hsuffix.trans (List.suffix_cons _ _), ht⟩

theorem next_not_mem_issued (k : Key) : k.next keys ∉ issued keys := by
  intro hmem
  obtain ⟨k', earlier, hsuffix, heq⟩ := mem_issued hmem
  obtain ⟨hbase, hcount⟩ := Tag.derive_withOccurrence_inj heq
  change k.base = k'.base at hbase
  have hle : ((k' :: earlier).map Key.base).count k.base ≤ (keys.map Key.base).count k.base :=
    (hsuffix.sublist.map Key.base).count_le _
  rw [List.map_cons, hbase, List.count_cons_self, ← hbase, hcount, hbase] at hle
  exact Nat.not_succ_le_self _ hle

/-- **No tag is given out twice**, whatever the names, the identities and the digest. -/
theorem issued_nodup (keys : List Key) : (issued keys).Nodup := by
  induction keys with
  | nil => exact List.nodup_nil
  | cons k keys ih => exact List.nodup_cons.2 ⟨next_not_mem_issued k, ih⟩

end

end NodeFormula
