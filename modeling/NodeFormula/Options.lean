import NodeFormula.Expr.Parser
import NodeFormula.Formula
import NodeFormula.Pass
/-!
# NodeFormula — options

How formulas are read and built. Options come as a document of named settings, in
which every setting may be missing.
-/

namespace NodeFormula

/-- How an expression is built. -/
structure BuildOptions where
  maxDepth : Nat
  /-- Nodes that nothing uses any more are removed. -/
  prune : Bool
  spacing : Float32
  deriving DecidableEq

/-- How a formula is compiled. -/
structure CompileOptions where
  formula : FormulaOptions
  build : BuildOptions
  deriving DecidableEq

/-- Options that make no sense. -/
inductive ConfigError where
  | zeroDepth
  | invalidSpacing (spacing : Float32)
  deriving DecidableEq

/-- The wording of a configuration error. -/
def ConfigError.message : ConfigError → String
  | zeroDepth => "max_depth must be at least 1"
  | invalidSpacing s => s!"node_spacing must be finite and non-negative, got {plainText32 s}"

/-- The value of a setting in a document. -/
inductive Setting where
  | flag (b : Bool)
  | integer (n : Int)
  /-- A number that is not written as an integer. -/
  | number (a : Float)
  /-- Neither truth value nor number. -/
  | other
  deriving DecidableEq, Repr

namespace Setting

/-- A truth value. -/
def flag? : Setting → Option Bool
  | flag b => some b
  | _ => none

/-- A non-negative integer of 64 bits. -/
def count? : Setting → Option Nat
  | integer n => if 0 ≤ n ∧ n < UInt64.size then some n.toNat else none
  | _ => none

/-- An integer of 64 bits, with or without a sign. -/
def isWord (n : Int) : Bool := Int64.minValue.toInt ≤ n && n < UInt64.size

/-- A number in single precision. An integer of 64 bits is rounded once; other numbers
are doubles already. -/
def single? : Setting → Option Float32
  | integer n => some (if isWord n then Float32.ofInt n else (Float.ofInt n).toFloat32)
  | number a => some a.toFloat32
  | _ => none

/-- A named setting: the default if it is missing, nothing if it is of the wrong type. -/
def read? (settings : List (String × Setting)) (name : String) (fallback : α)
    (type? : Setting → Option α) : Option α :=
  match settings.lookup name with
  | none => some fallback
  | some s => type? s

end Setting

/-- The build options when nobody sets any. -/
def BuildOptions.standard : BuildOptions := ⟨defaultDepth, true, defaultSpacing⟩

namespace CompileOptions

/-- The options when nobody sets any. -/
def standard : CompileOptions := ⟨.standard, .standard⟩

/-- The options of a document. Settings of other names are passed over. -/
def ofSettings? (settings : List (String × Setting)) : Option CompileOptions := do
  let algebraic ←
    Setting.read? settings "algebraic_notation" standard.formula.algebraic Setting.flag?
  let words ← Setting.read? settings "macros" standard.formula.words Setting.flag?
  let maxDepth ← Setting.read? settings "max_depth" standard.build.maxDepth Setting.count?
  let prune ← Setting.read? settings "prune_stale" standard.build.prune Setting.flag?
  let spacing ← Setting.read? settings "node_spacing" standard.build.spacing Setting.single?
  return ⟨⟨algebraic, words⟩, ⟨maxDepth, prune, spacing⟩⟩

/-- Options that can be used: some nesting is allowed, and nodes are not drawn
backwards or infinitely far away. -/
def validate (o : CompileOptions) : Except ConfigError Unit :=
  if o.build.maxDepth = 0 then .error .zeroDepth
  else if !o.build.spacing.isFinite || o.build.spacing < 0 then
    .error (.invalidSpacing o.build.spacing)
  else .ok ()

end CompileOptions

end NodeFormula
