import NodeFormula.Compile
import NodeFormula.Expr.Evaluate
import NodeFormula.Graph.Evaluate
import NodeFormula.Script.Session
import NodeFormula.Proofs.Graph.Evaluation
import NodeFormula.Proofs.Graph.History
import NodeFormula.Proofs.Compile.Isolation
import NodeFormula.Proofs.Build.Text
import NodeFormula.Proofs.Compile.History
import NodeFormula.Proofs.Build.Repeated
import NodeFormula.Proofs.Formula.Stable
import NodeFormula.Proofs.Formula.Tokens
import NodeFormula.Proofs.Script.Interpreted
import NodeFormula.Proofs.Compile.Wired
import NodeFormula.Proofs.Script.Kinds
import NodeFormula.Proofs.Script.Reported
import NodeFormula.Proofs.Graph.Answers
import NodeFormula.Proofs.Token.Spans
import NodeFormula.Proofs.Build.Refused
import NodeFormula.Proofs.Script.Identified
import NodeFormula.Proofs.Graph.Cycles
import NodeFormula.Proofs.Pass.Pruned
import NodeFormula.Proofs.Build.Tallied
import NodeFormula.Proofs.Build.Spared
import NodeFormula.Proofs.Expr.Meaning
import NodeFormula.Proofs.Build.Limited
import NodeFormula.Proofs.Expr.Located
import NodeFormula.Proofs.Formula.Callees
import NodeFormula.Proofs.Formula.Juxtaposed
import NodeFormula.Proofs.Graph.Withdrawn
