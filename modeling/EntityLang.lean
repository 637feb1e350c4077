import EntityLang.Analysis
import EntityLang.Binding
import EntityLang.Checking.Expr
import EntityLang.Checking.Findings
import EntityLang.Checking.Program
import EntityLang.Diagnostic
import EntityLang.Diagnostic.Problem
import EntityLang.Diagnostic.Reported
import EntityLang.Expr.Basic
import EntityLang.Expr.Coerce
import EntityLang.Expr.Infer
import EntityLang.Expr.Resolve
import EntityLang.Handle
import EntityLang.Json.Basic
import EntityLang.Json.Text
import EntityLang.Number.Basic
import EntityLang.Number.Shortest
import EntityLang.Number.Text
import EntityLang.Outline.Expr
import EntityLang.Outline.Program
import EntityLang.Pattern.Basic
import EntityLang.Pattern.Order
import EntityLang.Program.Basic
import EntityLang.Program.Declare
import EntityLang.Program.Lookup
import EntityLang.Proofs.Analysis.Halting
import EntityLang.Proofs.Analysis.Handles
import EntityLang.Proofs.Analysis.Leaves
import EntityLang.Proofs.Block.Blanked
import EntityLang.Proofs.Block.Resolved
import EntityLang.Proofs.Block.Sites
import EntityLang.Proofs.Block.Variables
import EntityLang.Proofs.Checking.AtMost
import EntityLang.Proofs.Checking.Broken
import EntityLang.Proofs.Checking.Cascade
import EntityLang.Proofs.Checking.Extension
import EntityLang.Proofs.Checking.Halt
import EntityLang.Proofs.Checking.Rules
import EntityLang.Proofs.Expr.Blanked
import EntityLang.Proofs.Expr.Fixed
import EntityLang.Proofs.Expr.Hints
import EntityLang.Proofs.Expr.Numeric
import EntityLang.Proofs.Expr.Parts
import EntityLang.Proofs.Expr.Positions
import EntityLang.Proofs.Expr.Reports
import EntityLang.Proofs.Expr.Resolved
import EntityLang.Proofs.Expr.View
import EntityLang.Proofs.Expr.Visits
import EntityLang.Proofs.Outline.Names
import EntityLang.Proofs.Outline.Resolved
import EntityLang.Proofs.Outline.Scopes
import EntityLang.Proofs.Pattern.Agreement
import EntityLang.Proofs.Pattern.Join
import EntityLang.Proofs.Pattern.Order
import EntityLang.Proofs.Pattern.Overlap
import EntityLang.Proofs.Pattern.Resolved
import EntityLang.Proofs.Pattern.Values
import EntityLang.Proofs.Program.Acyclic
import EntityLang.Proofs.Program.Cells
import EntityLang.Proofs.Program.Construction
import EntityLang.Proofs.Program.Declared
import EntityLang.Proofs.Program.EnumValues
import EntityLang.Proofs.Program.Extension
import EntityLang.Proofs.Program.FirstFit
import EntityLang.Proofs.Program.Growth
import EntityLang.Proofs.Program.Intact
import EntityLang.Proofs.Program.Ledger
import EntityLang.Proofs.Program.Named
import EntityLang.Proofs.Program.ParserShape
import EntityLang.Proofs.Program.Reach
import EntityLang.Proofs.Program.Recorded
import EntityLang.Proofs.Program.Refs
import EntityLang.Proofs.Program.Shape
import EntityLang.Proofs.Program.SymbolTable
import EntityLang.Proofs.Renaming.Analysis
import EntityLang.Proofs.Renaming.Check
import EntityLang.Proofs.Renaming.Expr
import EntityLang.Proofs.Renaming.Pattern
import EntityLang.Proofs.Renaming.Program
import EntityLang.Proofs.Renaming.Resolve
import EntityLang.Proofs.Renaming.Tree
import EntityLang.Proofs.Renaming.Walk
import EntityLang.Proofs.Resolution.Accounts
import EntityLang.Proofs.Resolution.Completeness
import EntityLang.Proofs.Resolution.Frame
import EntityLang.Proofs.Resolution.Idempotence
import EntityLang.Proofs.Resolution.Inference
import EntityLang.Proofs.Resolution.Isolation
import EntityLang.Proofs.Resolution.Overloads
import EntityLang.Proofs.Resolution.Redeclaration
import EntityLang.Proofs.Resolution.Reference
import EntityLang.Proofs.Resolution.Refinement
import EntityLang.Proofs.Resolution.Signature
import EntityLang.Proofs.Walk.Block
import EntityLang.Proofs.Walk.Coverage
import EntityLang.Proofs.Walk.Ending
import EntityLang.Proofs.Walk.Extension
import EntityLang.Proofs.Walk.Goal
import EntityLang.Proofs.Walk.Moved
import EntityLang.Proofs.Walk.Rest
import EntityLang.Proofs.Walk.Rules
import EntityLang.Proofs.Walk.Steps
import EntityLang.Proofs.Walk.Termination
import EntityLang.Resolution.Body
import EntityLang.Resolution.Pass
import EntityLang.Resolution.Signature
import EntityLang.Resolution.Walk
import EntityLang.Span
import EntityLang.Statement
