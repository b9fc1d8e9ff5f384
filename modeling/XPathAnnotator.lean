import XPathAnnotator.Axis.Basic
import XPathAnnotator.Axis.Walk
import XPathAnnotator.CommandLine
import XPathAnnotator.Data.Datum
import XPathAnnotator.Data.Json
import XPathAnnotator.Eval.Context
import XPathAnnotator.Eval.CoreFunction
import XPathAnnotator.Eval.Custom
import XPathAnnotator.Eval.Expr
import XPathAnnotator.Eval.NodeTest
import XPathAnnotator.Eval.Options
import XPathAnnotator.Expr.Basic
import XPathAnnotator.Expr.Outline
import XPathAnnotator.Expr.Parser
import XPathAnnotator.Expr.Printer
import XPathAnnotator.Grammar.Automaton
import XPathAnnotator.Grammar.Basic
import XPathAnnotator.Grammar.Lookahead
import XPathAnnotator.Grammar.Numbered
import XPathAnnotator.Grammar.Outline
import XPathAnnotator.Grammar.Parser
import XPathAnnotator.Grammar.Table
import XPathAnnotator.Main
import XPathAnnotator.Name.Qualified
import XPathAnnotator.NodeSet.Balanced
import XPathAnnotator.NodeSet.Basic
import XPathAnnotator.NodeSet.Cells
import XPathAnnotator.Number.Arithmetic
import XPathAnnotator.Number.Dyadic
import XPathAnnotator.Number.Numeral
import XPathAnnotator.Number.Shortest
import XPathAnnotator.Path.Glob
import XPathAnnotator.Path.Wildcard
import XPathAnnotator.Path.Workspace
import XPathAnnotator.Pattern.Basic
import XPathAnnotator.Pattern.Match
import XPathAnnotator.Pattern.Parser
import XPathAnnotator.Pattern.Template
import XPathAnnotator.Proofs.Axis.Confinement
import XPathAnnotator.Proofs.Axis.Reach
import XPathAnnotator.Proofs.Axis.Surroundings
import XPathAnnotator.Proofs.Data.Digits
import XPathAnnotator.Proofs.Data.Lookups
import XPathAnnotator.Proofs.Eval.Agreement
import XPathAnnotator.Proofs.Eval.DocumentOrder
import XPathAnnotator.Proofs.Eval.Failures
import XPathAnnotator.Proofs.Eval.InsertionOrder
import XPathAnnotator.Proofs.Eval.Language
import XPathAnnotator.Proofs.Eval.Outcomes
import XPathAnnotator.Proofs.Eval.Proximity
import XPathAnnotator.Proofs.Eval.Selection
import XPathAnnotator.Proofs.Eval.VirtualRoot
import XPathAnnotator.Proofs.Eval.Widening
import XPathAnnotator.Proofs.Expr.Abbreviations
import XPathAnnotator.Proofs.Expr.Decoding
import XPathAnnotator.Proofs.Expr.Everywhere
import XPathAnnotator.Proofs.Expr.Longhand
import XPathAnnotator.Proofs.Expr.Making
import XPathAnnotator.Proofs.Expr.Neighbours
import XPathAnnotator.Proofs.Expr.Pieces
import XPathAnnotator.Proofs.Expr.Roles
import XPathAnnotator.Proofs.Expr.RoundTrip
import XPathAnnotator.Proofs.Expr.Rows
import XPathAnnotator.Proofs.Expr.Rules
import XPathAnnotator.Proofs.Expr.Shape
import XPathAnnotator.Proofs.Expr.Spelling
import XPathAnnotator.Proofs.Expr.Variables
import XPathAnnotator.Proofs.Expr.Writing
import XPathAnnotator.Proofs.Grammar.Canonical
import XPathAnnotator.Proofs.Grammar.Cells
import XPathAnnotator.Proofs.Grammar.Clear
import XPathAnnotator.Proofs.Grammar.Closure
import XPathAnnotator.Proofs.Grammar.Completeness
import XPathAnnotator.Proofs.Grammar.Decided
import XPathAnnotator.Proofs.Grammar.Derivation
import XPathAnnotator.Proofs.Grammar.Expected
import XPathAnnotator.Proofs.Grammar.Exploration
import XPathAnnotator.Proofs.Grammar.First
import XPathAnnotator.Proofs.Grammar.Gathering
import XPathAnnotator.Proofs.Grammar.Items
import XPathAnnotator.Proofs.Grammar.Lockstep
import XPathAnnotator.Proofs.Grammar.Matching
import XPathAnnotator.Proofs.Grammar.Numbering
import XPathAnnotator.Proofs.Grammar.Renaming
import XPathAnnotator.Proofs.Grammar.Reordering
import XPathAnnotator.Proofs.Grammar.Runs
import XPathAnnotator.Proofs.Grammar.Saturation
import XPathAnnotator.Proofs.Grammar.Settling
import XPathAnnotator.Proofs.Grammar.Simple
import XPathAnnotator.Proofs.Grammar.Soundness
import XPathAnnotator.Proofs.Grammar.Termination
import XPathAnnotator.Proofs.Grammar.Tracing
import XPathAnnotator.Proofs.Grammar.Viability
import XPathAnnotator.Proofs.Grammar.Worklist
import XPathAnnotator.Proofs.NodeSet.Balancing
import XPathAnnotator.Proofs.NodeSet.Cells
import XPathAnnotator.Proofs.NodeSet.Listing
import XPathAnnotator.Proofs.NodeSet.Members
import XPathAnnotator.Proofs.NodeSet.Runs
import XPathAnnotator.Proofs.NodeSet.SeveralTrees
import XPathAnnotator.Proofs.NodeSet.Sorting
import XPathAnnotator.Proofs.Number.Closest
import XPathAnnotator.Proofs.Number.Exactness
import XPathAnnotator.Proofs.Number.Floor
import XPathAnnotator.Proofs.Number.Nearest
import XPathAnnotator.Proofs.Number.Numerals
import XPathAnnotator.Proofs.Number.Rounding
import XPathAnnotator.Proofs.Number.Signs
import XPathAnnotator.Proofs.Number.Sums
import XPathAnnotator.Proofs.Number.Written
import XPathAnnotator.Proofs.Pattern.GroupNames
import XPathAnnotator.Proofs.Pattern.References
import XPathAnnotator.Proofs.Report.Certainty
import XPathAnnotator.Proofs.Report.Descriptions
import XPathAnnotator.Proofs.Report.Findings
import XPathAnnotator.Proofs.Report.Items
import XPathAnnotator.Proofs.Report.Queries
import XPathAnnotator.Proofs.Report.Severities
import XPathAnnotator.Proofs.Report.TestCases
import XPathAnnotator.Proofs.Report.Usability
import XPathAnnotator.Proofs.Run.Collecting
import XPathAnnotator.Proofs.Run.Looking
import XPathAnnotator.Proofs.Run.Showing
import XPathAnnotator.Proofs.Run.Transcript
import XPathAnnotator.Proofs.Session.Handwork
import XPathAnnotator.Proofs.Settings.Conversions
import XPathAnnotator.Proofs.Settings.Precedence
import XPathAnnotator.Proofs.Settings.Refusals
import XPathAnnotator.Proofs.Text.Tidying
import XPathAnnotator.Proofs.Text.Words
import XPathAnnotator.Proofs.Token.Disambiguation
import XPathAnnotator.Proofs.Token.Lexemes
import XPathAnnotator.Proofs.Token.Lexing
import XPathAnnotator.Proofs.Token.Names
import XPathAnnotator.Proofs.Token.Shapes
import XPathAnnotator.Proofs.Token.Spacing
import XPathAnnotator.Proofs.Tree.Above
import XPathAnnotator.Proofs.Tree.Attachment
import XPathAnnotator.Proofs.Tree.Building
import XPathAnnotator.Proofs.Tree.Changes
import XPathAnnotator.Proofs.Tree.Conversion
import XPathAnnotator.Proofs.Tree.Converted
import XPathAnnotator.Proofs.Tree.DocumentOrder
import XPathAnnotator.Proofs.Tree.Grafting
import XPathAnnotator.Proofs.Tree.Lineages
import XPathAnnotator.Proofs.Tree.Linked
import XPathAnnotator.Proofs.Tree.Naming
import XPathAnnotator.Proofs.Tree.Parts
import XPathAnnotator.Proofs.Tree.Positions
import XPathAnnotator.Proofs.Tree.Preorder
import XPathAnnotator.Proofs.Tree.Remembering
import XPathAnnotator.Proofs.Tree.Scopes
import XPathAnnotator.Proofs.Tree.Scoping
import XPathAnnotator.Proofs.Tree.Subtrees
import XPathAnnotator.Proofs.Value.Comparison
import XPathAnnotator.Proofs.Workflow.Lines
import XPathAnnotator.Proofs.Workflow.Notes
import XPathAnnotator.Proofs.Workflow.Sections
import XPathAnnotator.Proofs.Xml.Pieces
import XPathAnnotator.Proofs.Xml.Reading
import XPathAnnotator.Proofs.Xml.Resolution
import XPathAnnotator.Report.Extract
import XPathAnnotator.Report.Finding
import XPathAnnotator.Report.Function
import XPathAnnotator.Report.Item
import XPathAnnotator.Report.Matcher
import XPathAnnotator.Run.Annotate
import XPathAnnotator.Session.Basic
import XPathAnnotator.Session.Command
import XPathAnnotator.Session.Property
import XPathAnnotator.Settings.Basic
import XPathAnnotator.Text.Blank
import XPathAnnotator.Text.Case
import XPathAnnotator.Text.CaseTable
import XPathAnnotator.Text.CasedTable
import XPathAnnotator.Text.CodePoints
import XPathAnnotator.Text.Integer
import XPathAnnotator.Text.Pieces
import XPathAnnotator.Text.PrintableTable
import XPathAnnotator.Text.Quoted
import XPathAnnotator.Text.Word
import XPathAnnotator.Text.WordTable
import XPathAnnotator.Token.Lexer
import XPathAnnotator.Tree.Build
import XPathAnnotator.Tree.Forest
import XPathAnnotator.Tree.Order
import XPathAnnotator.Tree.Scope
import XPathAnnotator.Tree.Walk
import XPathAnnotator.Value.Basic
import XPathAnnotator.Value.Compare
import XPathAnnotator.Value.Literal
import XPathAnnotator.Workflow.Command
import XPathAnnotator.Workflow.Runner
import XPathAnnotator.Workflow.Script
import XPathAnnotator.Xml.Document
import XPathAnnotator.Xml.Lexeme
import XPathAnnotator.Xml.NameTable
import XPathAnnotator.Xml.Prolog
import XPathAnnotator.Xml.Reader
