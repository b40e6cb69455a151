import PlotLisp.CommandLine
import PlotLisp.Environment
import PlotLisp.Environment.Summary
import PlotLisp.Environment.Unshown
import PlotLisp.Evaluation.Call
import PlotLisp.Evaluation.Evaluate
import PlotLisp.Evaluation.Form
import PlotLisp.Evaluation.Monad
import PlotLisp.Expr.Atom
import PlotLisp.Expr.Basic
import PlotLisp.Expr.Expect
import PlotLisp.Expr.Same
import PlotLisp.Expr.Text
import PlotLisp.Fault
import PlotLisp.Interpreter
import PlotLisp.Json.ExprCodec
import PlotLisp.Json.Numeral
import PlotLisp.Json.Parse
import PlotLisp.Json.Printer
import PlotLisp.Json.Token
import PlotLisp.Json.Value
import PlotLisp.Main
import PlotLisp.Number.Binary
import PlotLisp.Number.ComplexFloat
import PlotLisp.Number.Decimal
import PlotLisp.Number.Grid
import PlotLisp.Number.Reading
import PlotLisp.Number.Scalar
import PlotLisp.Number.Shortest
import PlotLisp.Number.Significant
import PlotLisp.Output
import PlotLisp.Plot.Annotated
import PlotLisp.Plot.Frame
import PlotLisp.Plot.Kind
import PlotLisp.Plot.Options
import PlotLisp.Plot.Samples
import PlotLisp.Plot.Scene
import PlotLisp.Procedure.Arguments
import PlotLisp.Procedure.Arithmetic
import PlotLisp.Procedure.Basic
import PlotLisp.Procedure.Lists
import PlotLisp.Procedure.Run
import PlotLisp.Proofs.Evaluation.Again
import PlotLisp.Proofs.Evaluation.Calls
import PlotLisp.Proofs.Evaluation.Frame
import PlotLisp.Proofs.Evaluation.HigherOrder
import PlotLisp.Proofs.Evaluation.Invariant
import PlotLisp.Proofs.Evaluation.Keeps
import PlotLisp.Proofs.Evaluation.Lambdas
import PlotLisp.Proofs.Evaluation.Limit
import PlotLisp.Proofs.Evaluation.Nesting
import PlotLisp.Proofs.Evaluation.ProcedureForms
import PlotLisp.Proofs.Evaluation.Procedures
import PlotLisp.Proofs.Evaluation.Programs
import PlotLisp.Proofs.Evaluation.Raising
import PlotLisp.Proofs.Evaluation.Refusals
import PlotLisp.Proofs.Evaluation.Rejections
import PlotLisp.Proofs.Evaluation.Reports
import PlotLisp.Proofs.Evaluation.SideBySide
import PlotLisp.Proofs.Evaluation.Simulation
import PlotLisp.Proofs.Evaluation.Unmentioned
import PlotLisp.Proofs.Evaluation.Values
import PlotLisp.Proofs.Expr.Same
import PlotLisp.Proofs.Expr.Trees
import PlotLisp.Proofs.Interpreter.Startup
import PlotLisp.Proofs.Json.Codec
import PlotLisp.Proofs.Json.Contents
import PlotLisp.Proofs.Json.Encoding
import PlotLisp.Proofs.Json.Numerals
import PlotLisp.Proofs.Json.Reading
import PlotLisp.Proofs.Json.RoundTrip
import PlotLisp.Proofs.Json.Scanning
import PlotLisp.Proofs.Json.Variants
import PlotLisp.Proofs.Number.Closeness
import PlotLisp.Proofs.Number.Decimals
import PlotLisp.Proofs.Number.Finite
import PlotLisp.Proofs.Number.Conversion
import PlotLisp.Proofs.Number.Grid
import PlotLisp.Proofs.Number.HalfEven
import PlotLisp.Proofs.Number.Nearest
import PlotLisp.Proofs.Number.Rounding
import PlotLisp.Proofs.Number.Significant
import PlotLisp.Proofs.Plot.Bounds
import PlotLisp.Proofs.Plot.Geometry
import PlotLisp.Proofs.Plot.Layout
import PlotLisp.Proofs.Plot.Options
import PlotLisp.Proofs.Plot.Shape
import PlotLisp.Proofs.Procedure.Arithmetic
import PlotLisp.Proofs.Session.InOrder
import PlotLisp.Proofs.Session.NextOutput
import PlotLisp.Proofs.Session.Outputs
import PlotLisp.Proofs.Session.Restart
import PlotLisp.Proofs.Session.Running
import PlotLisp.Proofs.Session.Schedule
import PlotLisp.Proofs.Session.Typing
import PlotLisp.Proofs.Source.Acceptance
import PlotLisp.Proofs.Source.Blame
import PlotLisp.Proofs.Source.Completeness
import PlotLisp.Proofs.Source.Grammar
import PlotLisp.Proofs.Source.Lines
import PlotLisp.Proofs.Source.Margins
import PlotLisp.Proofs.Source.Numbers
import PlotLisp.Proofs.Source.Offsets
import PlotLisp.Proofs.Source.Printing
import PlotLisp.Proofs.Source.Reasons
import PlotLisp.Proofs.Source.Scanning
import PlotLisp.Repl
import PlotLisp.Session
import PlotLisp.Source.Completeness
import PlotLisp.Source.Parse
import PlotLisp.Source.Report
import PlotLisp.Source.Token
import PlotLisp.Source.Whitespace
import PlotLisp.SpecialForm
