import NodeFormula.Build
/-!
# NodeFormula — compiling formulas

From a formula as it is written to nodes in a graph: canonical form, call form, and
then the build.
-/

namespace NodeFormula

/-- Why a formula cannot be compiled. -/
inductive CompileError where
  | config (e : ConfigError)
  | formula (e : FormulaError)
  | lowering (e : LoweringError)
  | build (e : BuildError)
  deriving DecidableEq

/-- The wording of a compile error. -/
def CompileError.message : CompileError → String
  | config e => e.message
  | formula e => e.message
  | lowering e => e.message
  | build e => e.message

/-- What a compilation did. -/
structure CompileReport where
  canonical : Canonical
  /-- The call form. -/
  expression : Expr
  build : BuildReport

/-- The call form of a formula, and the canonical text it was read from. -/
def compileText (o : CompileOptions) (raw : String) : Except CompileError (Canonical × Expr) := do
  o.validate.mapError .config
  let canonical ← (canonicalize o.formula raw).mapError .formula
  let e ← (lower o.build.maxDepth canonical.text).mapError .lowering
  return (canonical, e)

/-- Compiles a formula into a graph. -/
def compile [TagDigest] (o : CompileOptions) (b : Bindings) (raw : String) (g : Graph) :
    Except CompileError CompileReport × Graph :=
  match compileText o raw with
  | .error e => (.error e, g)
  | .ok (canonical, e) =>
    match build o.build b e g with
    | (.error err, g) => (.error (.build err), g)
    | (.ok report, g) => (.ok ⟨canonical, e, report⟩, g)

end NodeFormula
