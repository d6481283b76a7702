import CnfSolver.Main
import CnfSolver.Walk.Descent
import CnfSolver.Workspace
import CnfSolver.Proofs.Assignment.Completion
import CnfSolver.Proofs.Assignment.Decision
import CnfSolver.Proofs.Assignment.Extension
import CnfSolver.Proofs.Assignment.FirstFalse
import CnfSolver.Proofs.Dimacs.Faults
import CnfSolver.Proofs.NameTable.Consistency
import CnfSolver.Proofs.NameTable.Discovery
import CnfSolver.Proofs.NameTable.Faults
import CnfSolver.Proofs.NameTable.Growth
import CnfSolver.Proofs.NameTable.Rendering
import CnfSolver.Proofs.NameTable.Tokens
import CnfSolver.Proofs.Search.FirstModel
import CnfSolver.Proofs.Search.Log
import CnfSolver.Proofs.Search.Recursion
import CnfSolver.Proofs.Session.Batches
import CnfSolver.Proofs.Session.CrossCheck
import CnfSolver.Proofs.Session.History
import CnfSolver.Proofs.Session.Representation
import CnfSolver.Proofs.Session.Solve
import CnfSolver.Proofs.Text.Words
import CnfSolver.Proofs.TruthTable
import CnfSolver.Proofs.Walk.Board
import CnfSolver.Proofs.Walk.Conflicts
import CnfSolver.Proofs.Walk.Decisions
import CnfSolver.Proofs.Walk.Enumeration
import CnfSolver.Proofs.Walk.Invariant
import CnfSolver.Proofs.Walk.Recursion
import CnfSolver.Proofs.Watches.Invariant
import CnfSolver.Proofs.Watches.Relocation
import CnfSolver.Proofs.Session.Integers
import CnfSolver.Proofs.Dimacs.Layout
import CnfSolver.Proofs.Numeral
import CnfSolver.Proofs.Dimacs.Loading
import CnfSolver.Proofs.NameTable.Decoding
import CnfSolver.Proofs.Workspace.Step
import CnfSolver.Proofs.Workspace.History
import CnfSolver.Proofs.NameTable.Reencoding
import CnfSolver.Proofs.Session.Export
import CnfSolver.Proofs.Formula
import CnfSolver.Proofs.Formula.Encoding
import CnfSolver.Proofs.Formula.Text
import CnfSolver.Proofs.Session.Formula
import CnfSolver.Proofs.Solution.Line
import CnfSolver.Proofs.CommandLine.Outcome
import CnfSolver.Proofs.CommandLine.Texts
import CnfSolver.Proofs.Dimacs.Contents
import CnfSolver.Proofs.Formula.Integers
import CnfSolver.Proofs.Session.Files
import CnfSolver.Proofs.CommandLine.Inputs
import CnfSolver.Proofs.Benchmark
import CnfSolver.Proofs.CommandLine.Escapes
import CnfSolver.Proofs.Options.Sources
import CnfSolver.Proofs.Text.Unbroken
import CnfSolver.Proofs.Benchmark.Verdicts
import CnfSolver.Proofs.CommandLine.Benchmarks
import CnfSolver.Proofs.Formula.Renaming
import CnfSolver.Proofs.NameTable.Renaming
import CnfSolver.Proofs.Session.Lifecycle
import CnfSolver.Proofs.Session.Renaming
import CnfSolver.Proofs.TruthTable.FirstRow
import CnfSolver.Proofs.Traversal
import CnfSolver.Proofs.Watches.Effect
import CnfSolver.Proofs.Numeral.Grammar
import CnfSolver.Proofs.Dimacs.Grammar
import CnfSolver.Proofs.NameTable.Reading
import CnfSolver.Proofs.Walk.Frame
import CnfSolver.Proofs.Walk.Bounds
import CnfSolver.Proofs.Text.JsonString
import CnfSolver.Proofs.Solution.Entries
import CnfSolver.Proofs.Solution.Json
import CnfSolver.Proofs.Solution.Text
import CnfSolver.Proofs.Session.Printed
import CnfSolver.Proofs.NameTable.Numbers
import CnfSolver.Proofs.Session.Numbers
import CnfSolver.Proofs.Dimacs.Indentation
import CnfSolver.Proofs.Options.Arguments
import CnfSolver.Proofs.Options.Settings
import CnfSolver.Proofs.Options.Writing
import CnfSolver.Proofs.CommandLine.Sources
