import NodeFormula.Compile
import NodeFormula.Proofs.Build.Invariant
import NodeFormula.Proofs.Pass.Removal
/-!
# NodeFormula — building keeps the frame

Every operation of a build is made of findings of nodes and of new tags, so it keeps what
`Pass.Frame` says (`Build.frames`). A build that succeeds ends in a
frame in which the sink alone is free (`build_eq_ok`); one that fails ends in the graph it
began with, or in a frame that was taken back (`build_eq_error`).
-/

namespace NodeFormula

open Pass

variable {g : Graph} {free : InputRef → Prop} {loose : NodeId → Prop}

namespace Builtin

theorem framed_buildStage (hg : g.WellFormed) (t : Tag) (operands : List Operand)
    (previous : Operand) (s : Stage) :
    Framed g free loose (buildStage t operands previous s) :=
  Framed.get fun _ => Framed.bind (framed_findOrCreate hg _ _ _) fun _ => Framed.pure _

theorem framed_call (hg : g.WellFormed) (f : Builtin) (t : Tag) (operands : List Operand) :
    Framed g free loose (f.call t operands) :=
  ensures_call (fun _ _ h => h.failed) fun _ _ =>
    ensures_build fun s _ previous _ => framed_buildStage hg t operands previous s

end Builtin

namespace Build

variable [TagDigest] (b : Bindings)

theorem framed_node (hg : g.WellFormed) (name : String) (kind : NodeKind)
    (operands : List Operand) : Framed g free loose (node name kind operands) :=
  Framed.bind (framed_tagFor name operands) fun t =>
    Framed.bind (Framed.adaptExcept (framed_findOrCreate hg t kind operands) _)
      fun _ => Framed.pure _

/-- **Building an expression keeps the frame.** -/
theorem frames (hg : g.WellFormed) :
    Invariant (Frame g free loose) fun _ => Frame g free fun _ => True where
  call {f function} _ values :=
    Framed.bind (framed_tagFor f values) fun t =>
      Framed.adaptExcept (function.framed_call hg t values) _
  value _ := framed_node hg _ _ _
  combine elements := framed_node hg _ _ elements
  raise _ h := h.failed

theorem framed_root (hg : g.WellFormed) (e : Expr) : Framed g free loose (root b e) :=
  (frames hg).root b e

/-- The sink is linked last, so a build that fails has linked nothing that was there. -/
theorem ensures_linked (hg : g.WellFormed) (e : Expr) :
    Ensures (Frame g (fun _ => False) loose) (linked b e) (fun _ => Frame g (· = b.sink) loose)
      fun _ => Frame g (fun _ => False) fun _ => True :=
  Ensures.bind (framed_root b hg e) fun o =>
    Ensures.bind (Ensures.adaptExcept (ensures_linkOutput o)) fun _ => Ensures.pure fun _ h => h

end Build

open Graph

variable [TagDigest] {o : BuildOptions} {b : Bindings} {e : Expr} {g' : Graph}

/-- A build that succeeds has linked its result, and pruned if it was to. -/
theorem linked_of_build {r : BuildReport} (h : build o b e g = (.ok r, g')) :
    Build.check b o e g = .ok () ∧ ∃ made p,
      Build.linked b e (Pass.start g o.spacing) = .ok (r.output, made) p ∧
      (o.prune = false ∧ g' = p.graph ∧ r.nodes = p.report ∨
        o.prune = true ∧ ∃ tags p', Pass.prune p = .ok tags p' ∧ g' = p'.graph ∧
          r.nodes = p'.report) := by
  rw [build] at h
  cases hcheck : Build.check b o e g with
  | error err => simp [hcheck] at h
  | ok _ =>
    simp only [hcheck] at h
    cases hrun : Build.linked b e (Pass.start g o.spacing) with
    | error err p => simp [hrun] at h
    | ok a p =>
      obtain ⟨output, made⟩ := a
      simp only [hrun] at h
      cases hprune : o.prune with
      | false =>
        simp only [hprune, Bool.false_eq_true, if_false, Prod.mk.injEq, Except.ok.injEq] at h
        obtain ⟨rfl, rfl⟩ := h
        exact ⟨rfl, made, p, rfl, Or.inl ⟨rfl, rfl, rfl⟩⟩
      | true =>
        simp only [hprune, if_true] at h
        cases hstale : Pass.prune p with
        | error err p' => simp [hstale] at h
        | ok tags p' =>
          simp only [hstale, Prod.mk.injEq, Except.ok.injEq] at h
          obtain ⟨rfl, rfl⟩ := h
          exact ⟨rfl, made, p, rfl, Or.inr ⟨rfl, tags, p', hstale, rfl, rfl⟩⟩

/-- A build that fails was refused, or was taken back before its result was linked, or it could
not prune. -/
theorem failed_of_build {err : BuildError} (h : build o b e g = (.error err, g')) :
    g' = g ∨ Build.check b o e g = .ok () ∧
      ((∃ p, Build.linked b e (Pass.start g o.spacing) = .error err p ∧ g' = p.rollBack.graph) ∨
        ∃ a p err' p', Build.linked b e (Pass.start g o.spacing) = .ok a p ∧
          Pass.prune p = .error err' p') := by
  rw [build] at h
  cases hcheck : Build.check b o e g with
  | error err =>
    simp only [hcheck, Prod.mk.injEq] at h
    exact Or.inl h.2.symm
  | ok _ =>
    simp only [hcheck] at h
    cases hrun : Build.linked b e (Pass.start g o.spacing) with
    | error err p =>
      simp only [hrun, Prod.mk.injEq, Except.error.injEq] at h
      obtain ⟨rfl, rfl⟩ := h
      exact Or.inr ⟨rfl, Or.inl ⟨p, rfl, rfl⟩⟩
    | ok a p =>
      simp only [hrun] at h
      cases hprune : o.prune with
      | false => simp [hprune] at h
      | true =>
        cases hstale : Pass.prune p with
        | error err' p' => exact Or.inr ⟨rfl, Or.inr ⟨a, p, err', p', rfl, hstale⟩⟩
        | ok tags p' => simp [hprune, hstale] at h

/-- **A build that succeeds.** -/
theorem build_eq_ok (hg : g.Ready) {r : BuildReport} (h : build o b e g = (.ok r, g')) :
    ∃ p : Pass, Frame g (· = b.sink) (fun _ => False) p ∧ g' = p.graph ∧ r.nodes = p.report := by
  obtain ⟨-, made, p, hrun, hend⟩ := linked_of_build h
  have hstart : Frame g (fun _ => False) (fun _ => False) (Pass.start g o.spacing) :=
    Frame.start hg.wf hg.untagged o.spacing
  have hlinked := Build.ensures_linked b hg.wf e _ hstart
  rw [hrun] at hlinked
  rcases hend with ⟨-, hgraph, hreport⟩ | ⟨-, tags, p', hprune, hgraph, hreport⟩
  · exact ⟨p, hlinked, hgraph, hreport⟩
  · obtain ⟨p'', hp'', hframe, -⟩ := Frame.prune_eq_ok hlinked
    rw [hprune] at hp''
    cases hp''
    exact ⟨p', hframe, hgraph, hreport⟩

/-- **A build that fails.** It was taken back, unless it was refused at once. -/
theorem build_eq_error (hg : g.Ready) {err : BuildError} (h : build o b e g = (.error err, g')) :
    g' = g ∨ Build.check b o e g = .ok () ∧ ∃ p : Pass,
      Build.linked b e (Pass.start g o.spacing) = .error err p ∧
      Frame g (fun _ => False) (fun _ => True) p ∧ g' = p.rollBack.graph := by
  have hstart : Frame g (fun _ => False) (fun _ => False) (Pass.start g o.spacing) :=
    Frame.start hg.wf hg.untagged o.spacing
  have hlinked := Build.ensures_linked b hg.wf e _ hstart
  refine (failed_of_build h).imp_right ?_
  rintro ⟨hcheck, ⟨p, hrun, hgraph⟩ | ⟨a, p, err', p', hrun, hprune⟩⟩
  · rw [hrun] at hlinked
    exact ⟨hcheck, p, hrun, hlinked, hgraph⟩
  · rw [hrun] at hlinked
    obtain ⟨p'', hp'', -⟩ := Frame.prune_eq_ok hlinked
    rw [hprune] at hp''
    cases hp''

end NodeFormula
