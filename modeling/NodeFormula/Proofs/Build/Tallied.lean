import NodeFormula.Proofs.Build.Correct
import NodeFormula.Proofs.Build.Requested
/-!
# NodeFormula — the nodes that a build was given

A pass is asked for each tag once, so a node that it is given is none that it had before,
whatever the digest and whatever tags the graph has on it. The nodes that a report lists are
then as many as the queries, no two of them the same, and none of them is among those that were
removed (`Pass.Tallied`, `Tallied.step`). `build_tallies` is the result for whole builds, where
the queries are as many as the expression costs.
-/

namespace NodeFormula

open Graph

/-- The nodes that a pass has made or used again. -/
def Report.used (r : Report) : List NodeId := r.created ++ r.updated ++ r.reused

namespace Pass

variable {p q : Pass} {t : Tag} {kind : NodeKind} {n : NodeId} {tags : List Tag}

/-- **A pass was given a node for each tag**, and has no others. -/
structure Tallied (tags : List Tag) (p : Pass) : Prop where
  wf : p.graph.WellFormed
  touched : ∀ n ∈ p.touched, ∃ o ∈ p.graph.outlines, o.id = n ∧ ∃ t ∈ tags, o.tag = some t
  cached : ∀ x ∈ p.cache, x.1 ∈ tags
  used : ∀ n ∈ p.report.used, n ∈ p.touched
  nodup : p.report.used.Nodup
  count : p.report.used.length = tags.length
  removed : ∀ n ∈ p.report.removed, n < p.graph.nextNode ∧ ¬ p.graph.hasNode n

namespace Tallied

theorem start {g : Graph} (hg : g.WellFormed) (spacing : Float32) :
    Tallied [] (Pass.start g spacing) where
  wf := hg
  touched _ hn := absurd hn List.not_mem_nil
  cached _ hx := absurd hx List.not_mem_nil
  used _ hn := absurd hn List.not_mem_nil
  nodup := List.nodup_nil
  count := rfl
  removed _ hn := absurd hn List.not_mem_nil

theorem tuned (h : Tallied tags p) (hq : Tuned p q) : Tallied tags q := by
  have hused : q.report.used = p.report.used := by rw [hq.same]; rfl
  refine
    { wf := hq.wf h.wf
      touched := ?_
      cached := ?_
      used := ?_
      nodup := hused ▸ h.nodup
      count := hused ▸ h.count
      removed := ?_ }
  · rw [hq.outlines, hq.same]
    exact h.touched
  · rw [hq.same]
    exact h.cached
  · rw [hused, hq.same]
    exact h.used
  · simp only [hasNode_iff_outlines, hq.outlines, hq.nextNode]
    rw [hq.same]
    simp only [← hasNode_iff_outlines]
    exact h.removed

/-- A node that has been touched is there. -/
theorem hasNode (h : Tallied tags p) (hn : n ∈ p.touched) : p.graph.hasNode n := by
  obtain ⟨o, ho, hid, -⟩ := h.touched n hn
  exact hasNode_iff_outlines.2 ⟨o, ho, hid⟩

/-- **The node of a new tag is none that the pass had before.** -/
theorem found (h : Tallied tags p) (ht : t ∉ tags) (hfind : p.find? t = some n) :
    n ∉ p.touched ∧ ∃ o ∈ p.graph.outlines, o.id = n ∧ o.tag = some t := by
  have hcache : ∀ x ∈ p.cache, x.1 ≠ t := by
    rintro x hx rfl
    exact ht (h.cached x hx)
  rw [find?_of_cache hcache] at hfind
  obtain ⟨o, ho, hid, htag⟩ := mem_outlines_of_byTag? hfind
  refine ⟨fun hn => ?_, o, ho, hid, htag⟩
  obtain ⟨o', ho', hid', t', ht', htag'⟩ := h.touched n hn
  obtain rfl := h.wf.outlines_inj ho ho' (hid.trans hid'.symm)
  rw [htag] at htag'
  cases htag'
  exact ht ht'

/-- **One node more**, for one tag more. -/
theorem add (h : Tallied tags p) (hwf : q.graph.WellFormed) (hn : n ∉ p.touched)
    (hold : ∀ o ∈ p.graph.outlines, o ∈ q.graph.outlines)
    (hnew : ∃ o ∈ q.graph.outlines, o.id = n ∧ o.tag = some t)
    (htouched : q.touched = p.touching n)
    (hcached : ∀ x ∈ q.cache, x.1 = t ∨ x ∈ p.cache)
    (hused : q.report.used.Perm (n :: p.report.used))
    (hremoved : ∀ m ∈ q.report.removed, m < q.graph.nextNode ∧ ¬ q.graph.hasNode m) :
    Tallied (tags ++ [t]) q where
  wf := hwf
  touched m hm := by
    rw [htouched, mem_touching] at hm
    rcases hm with rfl | hm
    · obtain ⟨o, ho, hid, htag⟩ := hnew
      exact ⟨o, ho, hid, t, List.mem_append_right _ (List.mem_singleton_self t), htag⟩
    · obtain ⟨o, ho, hid, t', ht', htag⟩ := h.touched m hm
      exact ⟨o, hold o ho, hid, t', List.mem_append_left _ ht', htag⟩
  cached x hx := by
    rcases hcached x hx with rfl | hx
    · exact List.mem_append_right _ (List.mem_singleton_self _)
    · exact List.mem_append_left _ (h.cached x hx)
  used m hm := by
    rw [htouched, mem_touching]
    exact (List.mem_cons.1 (hused.mem_iff.1 hm)).imp_right (h.used m)
  nodup := hused.nodup_iff.2 (List.nodup_cons.2 ⟨fun hmem => hn (h.used n hmem), h.nodup⟩)
  count := by rw [hused.length_eq, List.length_cons, h.count, List.length_append,
    List.length_singleton]
  removed := hremoved

/-- The node of a new tag that is of another kind may go. -/
theorem cleared (h : Tallied tags p) (ht : t ∉ tags) (hq : Cleared t kind p q) :
    Tallied tags q := by
  cases hq with
  | none _ => exact h
  | @dropped n hfind _ hface hhas =>
    obtain ⟨hn, -⟩ := h.found ht hfind
    refine
      { wf := h.wf.without hface.1 hface.2
        touched := fun m hm => ?_
        cached := fun x hx => h.cached x (List.mem_of_mem_filter hx)
        used := h.used
        nodup := h.nodup
        count := h.count
        removed := fun m hm => ?_ }
    · obtain ⟨o, ho, rfl, htag⟩ := h.touched m hm
      rw [dropping, outlines_without]
      exact ⟨o, List.mem_filter.2 ⟨ho, bne_iff_ne.2 fun heq => hn (heq ▸ hm)⟩, rfl, htag⟩
    · rw [dropping, hasNode_iff_outlines, outlines_without]
      simp only [List.mem_filter, bne_iff_ne]
      rcases List.mem_append.1 hm with hm | hm
      · refine ⟨(h.removed m hm).1, ?_⟩
        rintro ⟨o, ⟨ho, -⟩, hid⟩
        exact (h.removed m hm).2 (hasNode_iff_outlines.2 ⟨o, ho, hid⟩)
      · obtain rfl := List.mem_singleton.1 hm
        refine ⟨h.wf.lt_nextNode hhas, ?_⟩
        rintro ⟨o, ⟨-, hne⟩, hid⟩
        exact hne hid

/-- A node that is made is another than all there were. -/
theorem made (h : Tallied tags p) (hq : Made t kind p q) : Tallied (tags ++ [t]) q := by
  obtain ⟨o, hid, -, htag, houtlines⟩ := hq.outlines
  have hlt : ∀ m, p.graph.hasNode m → m < p.graph.nextNode := fun m hm => h.wf.lt_nextNode hm
  refine h.add (n := p.graph.nextNode) hq.wf (fun hn => Nat.lt_irrefl _ (hlt _ (h.hasNode hn)))
    ?_ ?_ ?_ ?_ ?_ ?_
  · rw [houtlines]
    exact fun o' ho' => List.mem_append_left _ ho'
  · rw [houtlines]
    exact ⟨o, List.mem_append_right _ (List.mem_singleton_self o), hid, htag⟩
  · rw [hq.same]
  · intro x hx
    rcases List.mem_cons.1 (hq.cache hx) with rfl | hx
    · exact Or.inl rfl
    · exact Or.inr hx
  · rw [hq.same]
    simp only [Report.used, List.append_assoc, List.singleton_append]
    exact List.perm_middle
  · intro m hm
    rw [hq.same] at hm
    obtain ⟨hm', hnot⟩ := h.removed m hm
    rw [hq.nextNode, hasNode_iff_outlines, houtlines]
    refine ⟨Nat.lt_succ_of_lt hm', ?_⟩
    rintro ⟨o', ho', rfl⟩
    rcases List.mem_append.1 ho' with ho' | ho'
    · exact hnot (hasNode_iff_outlines.2 ⟨o', ho', rfl⟩)
    · rw [List.mem_singleton.1 ho', hid] at hm'
      exact Nat.lt_irrefl _ hm'

/-- **A request for a new tag is given a node that the pass did not have.** -/
theorem step (h : Tallied tags p) (ht : t ∉ tags) (hq : Comes t kind p (some n) q) :
    Tallied (tags ++ [t]) q := by
  cases hq with
  | @used n r changed hfind _ hr =>
    obtain ⟨hn, o, ho, hid, htag⟩ := h.found ht hfind
    have houtlines : r.graph.outlines = p.graph.outlines := hr.outlines
    obtain ⟨links, hreport⟩ : ∃ links, r.report = { p.report with linksCreated := links } :=
      ⟨r.report.linksCreated, by rw [hr.same]; rfl⟩
    have htouched : r.touched = p.touched := by rw [hr.same]; rfl
    have hcache : r.cache = (t, n) :: p.cache := by rw [hr.same]; rfl
    refine h.add (n := n) (hr.wf h.wf) hn ?_ ⟨o, houtlines ▸ ho, hid, htag⟩ ?_ ?_ ?_ ?_
    · exact fun o' ho' => houtlines ▸ ho'
    · simp only [reusing, touching, htouched]
    · intro x hx
      simp only [reusing, hcache] at hx
      rcases List.mem_cons.1 hx with rfl | hx
      · exact Or.inl rfl
      · exact Or.inr hx
    · cases changed with
      | true =>
        simp only [reusing, hreport, Report.used, if_true, List.append_assoc, List.singleton_append]
        rw [← List.append_assoc, ← List.append_assoc]
        exact List.perm_middle
      | false =>
        simp only [reusing, hreport, Report.used, Bool.false_eq_true, if_false]
        rw [← List.append_assoc]
        exact List.perm_append_singleton _ _
    · intro m hm
      rw [removed_reusing, hreport] at hm
      rw [reusing, hasNode_iff_outlines, houtlines, ← hasNode_iff_outlines, hr.nextNode]
      exact h.removed m hm
  | made hclear hmade _ => exact (h.cleared ht hclear).made hmade

end Tallied

/-! ## Removals -/

/-- What is removed is recorded, and nothing else is. -/
theorem ensures_removeAll_report (xs : List (Tag × NodeId)) (r : Report) :
    Ensures (·.report = r) (removeAll xs)
      (fun _ q => q.report = { r with removed := r.removed ++ xs.map Prod.snd })
      fun _ _ => True := by
  induction xs generalizing r with
  | nil =>
    refine Ensures.pure fun q hq => ?_
    rw [hq, List.map_nil, List.append_nil]
  | cons x xs ih =>
    refine Ensures.bind (Q := fun _ q => q.report = r)
      (Ensures.edit_ (fun _ _ hq _ => hq) fun _ _ _ _ => trivial) fun _ => ?_
    refine Ensures.bind (Q := fun _ q => q.report = { r with removed := r.removed ++ [x.2] })
      (Ensures.record fun q hq => by rw [hq]) fun _ => ?_
    refine Ensures.bind (ih _) fun _ => Ensures.pure fun q hq => ?_
    rw [hq, List.map_cons, List.append_assoc, List.singleton_append]

theorem prune_report {tags : List Tag} (h : prune p = .ok tags q) :
    q.report = { p.report with removed := p.report.removed ++ p.stale.map Prod.snd } := by
  have hall : Ensures (· = p) prune
      (fun _ q => q.report = { p.report with removed := p.report.removed ++ p.stale.map Prod.snd })
      fun _ _ => True := by
    refine Ensures.get fun q hq => ?_
    subst hq
    refine Ensures.bind ((ensures_removeAll_report q.stale q.report).weaken
      (fun r hr => hr ▸ rfl) (fun _ _ h => h) fun _ _ h => h) fun _ => ?_
    exact Ensures.bind (Q := fun _ r => r.report =
      { q.report with removed := q.report.removed ++ q.stale.map Prod.snd })
      (Ensures.modify fun _ h => h) fun _ => Ensures.pure fun _ h => h
  have hrun := hall p rfl
  rw [h] at hrun
  exact hrun

/-- None of the nodes that were given goes when a pass prunes. -/
theorem Tallied.prune (h : Tallied tags p) {removed : List Tag} (hq : Pass.prune p = .ok removed q) :
    q.report.used = p.report.used ∧ q.report.used.Disjoint q.report.removed := by
  have hreport := prune_report hq
  have hused : q.report.used = p.report.used := by rw [hreport]; rfl
  refine ⟨hused, fun n hn hmem => ?_⟩
  rw [hused] at hn
  rw [hreport] at hmem
  have htouched := h.used n hn
  rcases List.mem_append.1 hmem with hmem | hmem
  · exact (h.removed n hmem).2 (h.hasNode htouched)
  · obtain ⟨⟨t, m⟩, hm, rfl⟩ := List.mem_map.1 hmem
    exact (mem_stale.1 hm).2.1 htouched

end Pass

/-! ## Builds -/

section

open Pass

variable [TagDigest] {g : Graph} {b : Bindings} {e : Expr} {out : OutputRef} {p : Pass}

/-- **Building an expression tallies**: a node for each query, and as many as it costs. -/
theorem tallied_root (hg : g.WellFormed) {spacing : Float32}
    (h : Build.root b e (Pass.start g spacing) = .ok out p) :
    ∃ tags : List Tag, tags.length = e.rootCost b ∧ Tallied tags p := by
  have hroot := requests_root b e (Pass.start g spacing) _ rfl
  rw [h] at hroot
  obtain ⟨⟨hchain, hanswered, hcount⟩, -⟩ := hroot
  have hnodup := (queries_nodup hchain hg (List.forall_mem_nil _) rfl).1
  refine ⟨((Build.rootCalls b e (Pass.start g spacing)).flatMap Call.queries).map Query.tag,
    (List.length_map _).trans hcount, ?_⟩
  -- the queries so far have been answered, and have different tags
  let I : List Query → Pass → Prop := fun as p =>
    (as.map Query.tag).Nodup → (∀ a ∈ as, a.Answered) → Tallied (as.map Query.tag) p
  refine hchain.keeps (I := I) (fun as p derived hp hnodup hanswered => ?_)
    (fun as a ha hnodup hanswered => ?_) (fun _ _ => .start hg spacing) hnodup hanswered
  · exact { hp hnodup hanswered with }
  · rw [List.map_append, List.map_singleton] at hnodup ⊢
    have hbefore := ha hnodup.of_append_left fun a' ha' => hanswered a' (List.mem_append_left _ ha')
    have hfresh : a.tag ∉ as.map Query.tag := fun hmem =>
      List.disjoint_of_nodup_append hnodup hmem (List.mem_singleton_self _)
    have hcomes := a.comes hbefore.wf
    obtain ⟨⟨n, q⟩, hgiven⟩ := Option.isSome_iff_exists.1
      (hanswered a (List.mem_append_right _ (List.mem_singleton_self a)))
    rw [hgiven] at hcomes
    exact hbefore.step hfresh hcomes

/-- **Distinct call sites share no node**, whatever values the digest takes. No two tags of a pass
are the same, whatever else the pass does. So the nodes that a build has made, changed or used
again are all different, none of them was removed, and they are as many as the expression costs. -/
theorem build_tallies (hg : g.WellFormed) :
    (∀ spacing ops, (tagsGiven ops (Pass.start g spacing)).Nodup) ∧
      ∀ o b e r g', build o b e g = (.ok r, g') →
        r.nodes.used.Nodup ∧ r.nodes.used.Disjoint r.nodes.removed ∧
          r.nodes.used.length = e.rootCost b := by
  refine ⟨fun spacing ops => tagsGiven_nodup hg spacing ops, fun o b e r g' hbuild => ?_⟩
  obtain ⟨-, made, p, hlinked, hend⟩ := linked_of_build hbuild
  obtain ⟨out, p₁, hroot, hrest⟩ := run_bind_eq_ok hlinked
  obtain ⟨made', p₂, hlink, hdone⟩ := run_bind_eq_ok hrest
  cases hdone
  obtain ⟨tags, hcost, htallied⟩ := tallied_root hg hroot
  have htuned := (tuning_linkOutput r.output b.sink).adaptExcept
    (fun _ => BuildError.finalLink) p₁ p₁ (.refl p₁)
  rw [hlink] at htuned
  have hlast := htallied.tuned htuned
  rw [← hcost]
  rcases hend with ⟨-, -, hreport⟩ | ⟨-, removed, q, hprune, -, hreport⟩
  · rw [hreport]
    refine ⟨hlast.nodup, fun n hn hmem => ?_, hlast.count⟩
    exact (hlast.removed n hmem).2 (hlast.hasNode (hlast.used n hn))
  · obtain ⟨hused, hdisjoint⟩ := hlast.prune hprune
    rw [hreport]
    refine ⟨hused ▸ hlast.nodup, hdisjoint, ?_⟩
    rw [hused]
    exact hlast.count

end

/-- Two quotients rounded down and their sum, under tags with the same digest: five nodes. -/
theorem build_tallies_blank :
    ∃ e r g', callForm? "x//2 + x//3" = some e ∧ plain.WellFormed ∧
      @build blankDigest .standard (.atInterface ⟨exit, 0⟩) e plain = (.ok r, g') ∧
      r.nodes.used.Nodup ∧ r.nodes.used.Disjoint r.nodes.removed ∧ r.nodes.used.length = 5 := by
  have hface : withInterface [("x", .float)] [("a", .float)] = .ok plain := by rfl
  have hsome : (callForm? "x//2 + x//3").isSome := by decide +kernel
  have hbuilds : ∀ e ∈ callForm? "x//2 + x//3",
      (@build blankDigest .standard (.atInterface ⟨exit, 0⟩) e plain).1.isOk := by decide +kernel
  have hcost : ∀ e ∈ callForm? "x//2 + x//3", e.rootCost (.atInterface ⟨exit, 0⟩) = 5 := by
    decide +kernel
  obtain ⟨e, he⟩ := Option.isSome_iff_exists.1 hsome
  have hok := hbuilds e he
  cases hbuild : @build blankDigest .standard (.atInterface ⟨exit, 0⟩) e plain with
  | mk outcome g' =>
    rw [hbuild] at hok
    cases outcome with
    | error err => cases hok
    | ok r =>
      have hg : plain.WellFormed := wellFormed_of_withInterface hface
      have hall := (@build_tallies blankDigest plain hg).2 _ _ _ _ _ hbuild
      rw [hcost e he] at hall
      exact ⟨e, r, g', he, hg, hbuild, hall⟩

end NodeFormula
