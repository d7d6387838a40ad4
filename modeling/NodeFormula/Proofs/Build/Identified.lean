import NodeFormula.Proofs.Build.Invariant
import NodeFormula.Proofs.Pass.Identified
/-!
# NodeFormula — builds keep names apart

A build asks for nodes under the tags of functions alone, so its pass keeps names apart at
every step (`Build.identifies`). Whether it succeeds, is taken back or fails to prune, the graph
that it leaves has a name for each of its nodes (`Graph.Identified.build`). Nothing is asked of
the bindings and of the expression.
-/

namespace NodeFormula

open Pass

/-- What follows a new tag may rely on where it comes from. -/
theorem Pass.Identifying.nextTag_bind [TagDigest] {ε β : Type} {function : String}
    {identities : List String} {f : Tag → PassM ε β} (h : Opens Char.isLower function)
    (hf : ∀ t, t.Made → Identifying (f t)) : Identifying (nextTag function identities >>= f) :=
  Ensures.bind (ensures_nextTag_made h identities) fun t p hp => hf t hp.1 p hp.2

namespace Builtin

variable {f : Builtin} {t : Tag}

theorem identifying_buildStage (ht : t.Made) (operands : List Operand) (previous : Operand)
    (s : Stage) : Identifying (buildStage t operands previous s) := by
  have htag : ((s.child.map t.child).getD t).Made := by
    cases s.child with
    | none => exact ht
    | some name => exact ht.child name
  exact .get fun p => .bind (identifying_findOrCreate htag _ _) fun n => .pure _

theorem identifying_call (ht : t.Made) (operands : List Operand) :
    Identifying (f.call t operands) :=
  ensures_call (fun _ _ hp => hp) fun _ _ =>
    ensures_build fun s _ previous _ => identifying_buildStage ht operands previous s

end Builtin

namespace Build

variable [TagDigest] (b : Bindings)

theorem identifying_node {name : String} (h : Opens Char.isLower name) (kind : NodeKind)
    (args : List Operand) : Identifying (node name kind args) := by
  rw [node, tagFor, bind_assoc]
  exact .get fun p => .nextTag_bind h fun t ht =>
    .bind (.adaptExcept (identifying_findOrCreate ht kind args) _) fun n => .pure _

/-- **Building an expression keeps names apart.** -/
theorem identifies : Invariant Identified fun _ => Identified where
  call {f function} hf values := by
    -- a function of the catalogue has a name that opens with a small letter
    have hopens := Catalogue.opens_of_get? (Catalogue.require_eq_ok.1 hf)
    rw [tagFor, bind_assoc]
    exact Identifying.get fun p => .nextTag_bind hopens fun t ht =>
      .adaptExcept (function.identifying_call ht values) _
  value _ := identifying_node (by decide) _ _
  combine elements := identifying_node (by decide) _ elements
  raise _ hp := hp

theorem identifying_linked (e : Expr) : Identifying (linked b e) :=
  .bind (identifies.root b e) fun o =>
    .bind (.adaptExcept (.of_retaining (retaining_linkOutput o b.sink)) _) fun _ => .pure _

end Build

/-- **A build leaves names apart**, whether it succeeds or fails. -/
theorem Graph.Identified.build [TagDigest] {g : Graph} (hg : g.Identified) (o : BuildOptions)
    (b : Bindings) (e : Expr) : (NodeFormula.build o b e g).2.Identified := by
  have hlinked := Build.identifying_linked b e (start g o.spacing) (.start hg o.spacing)
  rw [NodeFormula.build]
  cases Build.check b o e g with
  | error err => exact hg
  | ok _ =>
    dsimp only
    cases hrun : Build.linked b e (start g o.spacing) with
    | error err p =>
      rw [hrun] at hlinked
      exact (hlinked.of_retains (retains_rollBack p)).graph
    | ok a p =>
      rw [hrun] at hlinked
      have hprune := Identifying.of_retaining retaining_prune p hlinked
      dsimp only
      split
      · cases hpruned : prune p with
        | error err q =>
          rw [hpruned] at hprune
          exact hprune.graph
        | ok tags q =>
          rw [hpruned] at hprune
          exact hprune.graph
      · exact hlinked.graph

end NodeFormula
