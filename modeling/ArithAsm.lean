import ArithAsm.Assembly.Backend
import ArithAsm.Assembly.Emission
import ArithAsm.Assembly.Intel
import ArithAsm.Assembly.Line
import ArithAsm.Assembly.Read
import ArithAsm.Assembly.Registry
import ArithAsm.CommandLine.Dash
import ArithAsm.CommandLine.Request
import ArithAsm.CommandLine.Settings
import ArithAsm.CommandLine.Switch
import ArithAsm.CommandLine.Usage
import ArithAsm.CommandLine.UsageError
import ArithAsm.CommandLine.Word
import ArithAsm.Compile
import ArithAsm.FileTree
import ArithAsm.Grammar.Call
import ArithAsm.Grammar.Cursor
import ArithAsm.Grammar.Derivation
import ArithAsm.Grammar.Expression
import ArithAsm.Grammar.Rule
import ArithAsm.Machine.Arm64
import ArithAsm.Machine.Intel
import ArithAsm.Machine.X64
import ArithAsm.Main
import ArithAsm.Operator
import ArithAsm.Proofs.Arm64.Block
import ArithAsm.Proofs.Arm64.Correctness
import ArithAsm.Proofs.Arm64.Literal
import ArithAsm.Proofs.Arm64.Simulation
import ArithAsm.Proofs.Assembly.Code
import ArithAsm.Proofs.Assembly.Registration
import ArithAsm.Proofs.Assembly.ReadBack
import ArithAsm.Proofs.Assembly.Steps
import ArithAsm.Proofs.CommandLine.Dash
import ArithAsm.Proofs.CommandLine.Form
import ArithAsm.Proofs.CommandLine.Origin
import ArithAsm.Proofs.CommandLine.Request
import ArithAsm.Proofs.CommandLine.Source
import ArithAsm.Proofs.CommandLine.Taken
import ArithAsm.Proofs.CommandLine.Word
import ArithAsm.Proofs.Compile.Outcome
import ArithAsm.Proofs.Compile.Respelling
import ArithAsm.Proofs.Grammar.Complete
import ArithAsm.Proofs.Grammar.Depth
import ArithAsm.Proofs.Grammar.Descent
import ArithAsm.Proofs.Grammar.Discipline
import ArithAsm.Proofs.Grammar.Inorder
import ArithAsm.Proofs.Grammar.Literals
import ArithAsm.Proofs.Grammar.Local
import ArithAsm.Proofs.Grammar.Parse
import ArithAsm.Proofs.Grammar.Phrase
import ArithAsm.Proofs.Grammar.Places
import ArithAsm.Proofs.Grammar.RightDepth
import ArithAsm.Proofs.Grammar.RoundTrip
import ArithAsm.Proofs.Grammar.Sound
import ArithAsm.Proofs.Grammar.Step
import ArithAsm.Proofs.Result
import ArithAsm.Proofs.Run.Backlog
import ArithAsm.Proofs.Run.Caret
import ArithAsm.Proofs.Run.Failures
import ArithAsm.Proofs.Run.Faults
import ArithAsm.Proofs.Run.Files
import ArithAsm.Proofs.Run.Pipeline
import ArithAsm.Proofs.Run.Stages
import ArithAsm.Proofs.Token.Cover
import ArithAsm.Proofs.Token.DigitRun
import ArithAsm.Proofs.Token.Respelling
import ArithAsm.Proofs.Token.Spelling
import ArithAsm.Proofs.Tree.Exact
import ArithAsm.Proofs.Tree.Recursion
import ArithAsm.Proofs.Tree.Spine
import ArithAsm.Proofs.Tree.Stack
import ArithAsm.Proofs.Tree.Value
import ArithAsm.Proofs.Word.Division
import ArithAsm.Proofs.Word.Quotient
import ArithAsm.Proofs.Word.Residue
import ArithAsm.Proofs.X64.Block
import ArithAsm.Proofs.X64.Correctness
import ArithAsm.Proofs.X64.InStep
import ArithAsm.Proofs.X64.Intel
import ArithAsm.Proofs.X64.Outcome
import ArithAsm.Proofs.X64.Processor
import ArithAsm.Proofs.X64.Simulation
import ArithAsm.Reporter
import ArithAsm.Run
import ArithAsm.Text.Blank
import ArithAsm.Text.CharRange
import ArithAsm.Text.Decimal
import ArithAsm.Text.DecimalDigit
import ArithAsm.Text.Printable
import ArithAsm.Text.Quoted
import ArithAsm.Token
import ArithAsm.Token.Scan
import ArithAsm.Tree
import ArithAsm.Tree.Print
import ArithAsm.Tree.Shape
import ArithAsm.Tree.Value
import ArithAsm.Tree.Walk
import ArithAsm.Tree.Written
import ArithAsm.Word
import ArithAsm.Proofs.Tree.Readable
import ArithAsm.Proofs.Token.Obstacle
import ArithAsm.Proofs.Arm64.Constant
import ArithAsm.Proofs.Grammar.Nesting
