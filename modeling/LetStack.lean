import LetStack.Ast.Listing
import LetStack.Ast.Outline
import LetStack.Ast.Placement
import LetStack.Build.Basic
import LetStack.Build.Screen
import LetStack.Build.Timer
import LetStack.Compile.Cache
import LetStack.Decimal.Reader
import LetStack.Decimal.Shortest
import LetStack.Diagnostic.Bag
import LetStack.Diagnostic.Document
import LetStack.Grammar.Pattern
import LetStack.Lower.Module
import LetStack.Machine.Packed
import LetStack.Main
import LetStack.Manifest.Find
import LetStack.Source.FileSet
import LetStack.Text.Cells
import LetStack.Text.ControlSequence
import LetStack.Text.Letter
import LetStack.Text.Nfc
import LetStack.Text.Quoted
import LetStack.Token.Cursor
import LetStack.Token.Placement
import LetStack.Token.Scanner
import LetStack.Toml.Cursor
import LetStack.Toml.Quoted
import LetStack.Toml.Token
import LetStack.Version
import LetStack.Proofs.Ast.Form
import LetStack.Proofs.Grammar.Derivation
import LetStack.Proofs.Ast.Storage
import LetStack.Proofs.Compile.Total
import LetStack.Proofs.Grammar.Agreement
import LetStack.Proofs.Grammar.Stopping
import LetStack.Proofs.Lower.Simulation
import LetStack.Proofs.Text.Utf8
import LetStack.Proofs.Token.Longest
import LetStack.Proofs.Token.Layout
import LetStack.Proofs.Compile.Failing
import LetStack.Proofs.Build.Artifacts
import LetStack.Proofs.Lower.Balance
import LetStack.Proofs.Lower.Strictness
import LetStack.Proofs.Grammar.Awaiting
import LetStack.Proofs.Grammar.Unsupported
import LetStack.Proofs.MessagePack.RoundTrip
import LetStack.Proofs.Machine.Packed
import LetStack.Proofs.Compile.Entry
import LetStack.Proofs.Lower.Emitted
import LetStack.Proofs.Compile.Shared
import LetStack.Proofs.Compile.Key
import LetStack.Proofs.Files.Walk
import LetStack.Proofs.Files.Directories
import LetStack.Proofs.Compile.Batch
import LetStack.Proofs.Machine.Format
import LetStack.Proofs.Compile.Truncation
import LetStack.Proofs.Token.Order
import LetStack.Proofs.Grammar.Spelling
import LetStack.Proofs.Grammar.Spans
import LetStack.Proofs.Ast.Reach
import LetStack.Proofs.Grammar.WellFormed
import LetStack.Proofs.Grammar.Placement
import LetStack.Proofs.Grammar.Evaluation
import LetStack.Proofs.Grammar.Recursion
import LetStack.Proofs.Grammar.Contract
import LetStack.Proofs.Grammar.Interruption
import LetStack.Proofs.Compile.Outcome
import LetStack.Proofs.Compile.Attribution
import LetStack.Proofs.Files.Regular
import LetStack.Proofs.Files.Sources
import LetStack.Proofs.Build.Naming
import LetStack.Proofs.Build.Rows
import LetStack.Proofs.Build.Interleaving
import LetStack.Proofs.Build.Settling
import LetStack.Proofs.Token.Quoted
import LetStack.Proofs.Grammar.Covering
import LetStack.Proofs.Grammar.MissLaws
import LetStack.Proofs.Grammar.Firm
import LetStack.Proofs.Grammar.Offending
import LetStack.Proofs.Text.Boundary
import LetStack.Proofs.Token.Characters
import LetStack.Proofs.Grammar.Wording
import LetStack.Proofs.Lower.Escapes
import LetStack.Proofs.Lower.Faults
import LetStack.Proofs.Compile.Encoding
import LetStack.Proofs.Text.Overlap
import LetStack.Proofs.Token.Scanned
import LetStack.Proofs.Token.Rescan
import LetStack.Proofs.Token.Invalid
import LetStack.Proofs.Token.Lines
import LetStack.Proofs.Lower.Integers
import LetStack.Proofs.Lower.EscapeGrammar
import LetStack.Proofs.Lower.CharLiterals
import LetStack.Proofs.Lower.EscapeReports
import LetStack.Proofs.Source.Positions
import LetStack.Proofs.Diagnostic.Snippet
import LetStack.Proofs.Build.Containment
import LetStack.Proofs.Build.Layout
import LetStack.Proofs.Diagnostic.Ledger
import LetStack.Proofs.Source.Joins
import LetStack.Proofs.Grammar.Alternatives
import LetStack.Proofs.Trace.Nesting
import LetStack.Proofs.Compile.Tracing
import LetStack.Proofs.Ast.Trees
import LetStack.Proofs.Grammar.Appending
import LetStack.Proofs.Trace.Retention
import LetStack.Proofs.Source.Interning
import LetStack.Proofs.Token.Movement
