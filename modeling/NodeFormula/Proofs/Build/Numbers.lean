import Mathlib.Data.List.Basic
import NodeFormula.Catalogue
/-!
# NodeFormula — functions on numbers, and by their nodes

A function says by itself what it computes on numbers, and apart from that which nodes it is
built of. A stage computes what its node does, given the result of the stage before
(`Stage.value`), and a function agrees with its nodes when its stages end in its value
(`Builtin.Agrees`). That is proved for each way to write a function down, and from it for every
function of the catalogue (`agrees_of_mem`).
-/

namespace NodeFormula

namespace Stage

variable {args : List Float} {previous : Float}

/-- The number an argument of a stage stands for. -/
def argValue (args : List Float) (previous : Float) : StageArg → Float
  | .param i => args.getD i 0
  | .constant a => a
  | .zero => 0
  | .previous => previous

/-- What a stage computes on numbers. -/
def value (args : List Float) (previous : Float) (s : Stage) : Float :=
  Builtin.evalKind (s.node.kind false) (s.args.map (argValue args previous))

/-- The parameters in order stand for the numbers in order. -/
theorem map_argValue_allParams {params : List String} (h : args.length = params.length) :
    (Builtin.allParams params).map (argValue args previous) = args := by
  rw [Builtin.allParams, List.map_map, ← h]
  refine List.ext_getElem? fun i => ?_
  rw [List.getElem?_map]
  by_cases hi : i < args.length
  · rw [List.getElem?_range hi, Option.map_some, Function.comp_apply, argValue,
      List.getD_eq_getElem?_getD, List.getElem?_eq_getElem hi, Option.getD_some]
  · rw [List.getElem?_eq_none_iff.2 (Nat.le_of_not_lt hi),
      List.getElem?_eq_none_iff.2 (by rw [List.length_range]; exact Nat.le_of_not_lt hi)]
    rfl

end Stage

namespace Builtin

/-- A math node gives on numbers what its operation does. -/
theorem evalKind_math (op : MathOp) (args : List Float) :
    evalKind (.math op) args = op.apply args := by
  have hargs : (args.map Value.float).map Value.toFloat = args := by
    rw [List.map_map]
    exact List.map_id _
  change op.apply ((args.map Value.float).map Value.toFloat) = _
  rw [hargs]

/-- **A function computes on numbers what its nodes compute.** -/
def Agrees (f : Builtin) : Prop :=
  ∀ args : List Float, args.length = f.arity → f.value args = f.stages.foldl (Stage.value args) 0

/-- A function that is one node agrees if its value is that of the node. -/
theorem agrees_of_node {f : Builtin} {child : Option String} {node : StageNode}
    (hfirst : f.first = ⟨child, node, allParams f.params⟩) (hrest : f.rest = [])
    (hvalue : f.value = evalKind (node.kind false)) : f.Agrees := by
  intro args hargs
  rw [stages, hfirst, hrest, hvalue, List.foldl_cons, List.foldl_nil, Stage.value,
    Stage.map_argValue_allParams hargs]

theorem scalar_agrees (category name : String) (params : List String) (op : MathOp)
    (doc : String) : (scalar category name params op doc).Agrees :=
  agrees_of_node rfl rfl (funext fun args => (evalKind_math op args).symm)

theorem single_agrees (category name : String) (params : List String) (kind : NodeKind)
    (doc longDoc : String) :
    (single category name params kind (evalKind kind) doc longDoc).Agrees :=
  agrees_of_node rfl rfl rfl

/-- A function on numbers and on vectors agrees by its math node. -/
theorem dual_agrees (name : String) (params : List String) (op : MathOp) (vector : VectorOp)
    (doc longDoc : String) : (dual name params op vector op.apply doc longDoc).Agrees :=
  agrees_of_node rfl rfl (funext fun args => (evalKind_math op args).symm)

end Builtin

namespace Catalogue

open Builtin

/-! A function of more than a node, or with a constant, is compared stage by stage. -/

theorem floordiv_agrees : floordiv.Agrees := by
  intro args hargs
  obtain ⟨a, b, rfl⟩ := List.length_eq_two.1 hargs
  have hdiv : Stage.value [a, b] 0 floordiv.first = MathOp.divide.apply [a, b] :=
    evalKind_math .divide [a, b]
  change _ = evalKind (.math .floor) [Stage.value [a, b] 0 floordiv.first]
  rw [evalKind_math, hdiv]
  rfl

theorem neg_agrees : neg.Agrees := by
  intro args hargs
  obtain ⟨a, rfl⟩ := List.length_eq_one_iff.1 hargs
  exact (evalKind_math .subtract [0, a]).symm

theorem ln_agrees : ln.Agrees := by
  intro args hargs
  obtain ⟨a, rfl⟩ := List.length_eq_one_iff.1 hargs
  exact (evalKind_math .logarithm [a, Scalar.euler]).symm

theorem nroot_agrees : nroot.Agrees := by
  intro args hargs
  obtain ⟨a, n, rfl⟩ := List.length_eq_two.1 hargs
  have hdiv : Stage.value [a, n] 0 nroot.first = MathOp.divide.apply [1, n] :=
    evalKind_math .divide [1, n]
  change _ = evalKind (.math .power) [a, Stage.value [a, n] 0 nroot.first]
  rw [evalKind_math, hdiv]
  rfl

/-- **Every function agrees with its nodes.** -/
theorem agrees_of_mem {f : Builtin} (hf : f ∈ functions) : f.Agrees := by
  have hall : ∀ f ∈ functions, f.Agrees := by
    simp only [functions, arithmetic, exponent, trigonometry, rounding, range,
      List.forall_mem_append, List.forall_mem_cons, dual_agrees, scalar_agrees, single_agrees,
      floordiv_agrees, neg_agrees, ln_agrees, nroot_agrees, List.not_mem_nil, false_imp_iff,
      implies_true, and_self]
  exact hall f hf

end Catalogue

end NodeFormula
