import Lisplet.Main
import Lisplet.Number.Word
import Lisplet.Scope.Forest
import Lisplet.Proofs.CommandLine.FileRun
import Lisplet.Proofs.Descent.Progress
import Lisplet.Proofs.Evaluation.Operands
import Lisplet.Proofs.Grammar.Signs
import Lisplet.Proofs.Grammar.Viability
import Lisplet.Proofs.Numbers.Leading
import Lisplet.Proofs.Numbers.Printed
import Lisplet.Proofs.Numbers.Shortest
import Lisplet.Proofs.Numbers.Whole
import Lisplet.Proofs.Numbers.Words
import Lisplet.Proofs.Numbers.Written
import Lisplet.Proofs.Outlines.Lines
import Lisplet.Proofs.Outlines.Quoted
import Lisplet.Proofs.Outlines.Tokens
import Lisplet.Proofs.Outlines.Trees
import Lisplet.Proofs.Outlines.Values
import Lisplet.Proofs.Places.Positions
import Lisplet.Proofs.Places.Table
import Lisplet.Proofs.Relocation.Layout
import Lisplet.Proofs.Reports.Blocks
import Lisplet.Proofs.Reports.Carets
import Lisplet.Proofs.Scoping.Dependence
import Lisplet.Proofs.Scoping.History
import Lisplet.Proofs.Scoping.Nesting
import Lisplet.Proofs.Scoping.Occurrences
import Lisplet.Proofs.Scoping.Simulation
import Lisplet.Proofs.Scoping.Undefined
import Lisplet.Proofs.Segmentation.Spacing
import Lisplet.Proofs.Sessions.Isolation
import Lisplet.Proofs.Sessions.Joined
import Lisplet.Proofs.Sessions.Located
import Lisplet.Proofs.Styles.CommandLine
