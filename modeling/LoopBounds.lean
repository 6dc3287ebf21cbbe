import LoopBounds.Analysis.Engine
import LoopBounds.Body.Builder
import LoopBounds.Body.Reference
import LoopBounds.Demo.Report
import LoopBounds.Dot
import LoopBounds.Execution
import LoopBounds.Interpreter.Scripted
import LoopBounds.Main
import LoopBounds.Proofs.Analysis.Accounting
import LoopBounds.Proofs.Analysis.Comparison
import LoopBounds.Proofs.Analysis.DepthLimit
import LoopBounds.Proofs.Analysis.Domain
import LoopBounds.Proofs.Analysis.LoopRange
import LoopBounds.Proofs.Analysis.Progress
import LoopBounds.Proofs.Analysis.Rebinding
import LoopBounds.Proofs.Analysis.Renumbering
import LoopBounds.Proofs.Analysis.Reordering
import LoopBounds.Proofs.Analysis.Tightening
import LoopBounds.Proofs.Analysis.Unbounded
import LoopBounds.Proofs.Body.Requests
import LoopBounds.Proofs.Demo.Scenario
import LoopBounds.Proofs.Dependents.Path
import LoopBounds.Proofs.Dot
import LoopBounds.Proofs.Exactness.Expr
import LoopBounds.Proofs.Exactness.Operation
import LoopBounds.Proofs.Expr.Text
import LoopBounds.Proofs.Interpreter.Frame
import LoopBounds.Proofs.Interval.Lattice
import LoopBounds.Proofs.Soundness.Engine
import LoopBounds.Proofs.Unchecked
