import CMinusMinus.Asm
import CMinusMinus.Asm.Emit
import CMinusMinus.Asm.Text
import CMinusMinus.Check
import CMinusMinus.Check.Exp
import CMinusMinus.Check.Rule
import CMinusMinus.Check.Stmt
import CMinusMinus.Command
import CMinusMinus.Command.Arguments
import CMinusMinus.Compilation
import CMinusMinus.Compilation.Trace
import CMinusMinus.Diagnostic
import CMinusMinus.Diagnostic.Cause
import CMinusMinus.Diagnostic.Codes
import CMinusMinus.Diagnostic.Snippet
import CMinusMinus.Fault
import CMinusMinus.File
import CMinusMinus.Frame
import CMinusMinus.Generate
import CMinusMinus.Generate.Address
import CMinusMinus.Generate.Exp
import CMinusMinus.Generate.Label
import CMinusMinus.Generate.Stmt
import CMinusMinus.Log
import CMinusMinus.Main
import CMinusMinus.Outcome
import CMinusMinus.Parse
import CMinusMinus.Parse.Cursor
import CMinusMinus.Parse.Exp
import CMinusMinus.Parse.Program
import CMinusMinus.Parse.Stmt
import CMinusMinus.Parse.VarDecl
import CMinusMinus.Position
import CMinusMinus.Resolve
import CMinusMinus.Resolve.Exp
import CMinusMinus.Resolve.Stmt
import CMinusMinus.Resolve.VarDecl
import CMinusMinus.Scopes
import CMinusMinus.Symbol
import CMinusMinus.Syntax
import CMinusMinus.Syntax.Annotation
import CMinusMinus.Syntax.Error
import CMinusMinus.Syntax.Fragment
import CMinusMinus.Syntax.Outline
import CMinusMinus.Syntax.Same
import CMinusMinus.Syntax.Source
import CMinusMinus.Text.Digit
import CMinusMinus.Text.Letter
import CMinusMinus.Text.Lines
import CMinusMinus.Text.Number
import CMinusMinus.Text.Pad
import CMinusMinus.Text.Path
import CMinusMinus.Text.Printable
import CMinusMinus.Text.Quoted
import CMinusMinus.Text.Ranges
import CMinusMinus.Text.Value
import CMinusMinus.Token
import CMinusMinus.Token.Error
import CMinusMinus.Token.Scan
import CMinusMinus.Ty
import CMinusMinus.Proofs.Grammar
import CMinusMinus.Proofs.Grammar.Reading
import CMinusMinus.Proofs.Layout
import CMinusMinus.Proofs.Layout.Separation
import CMinusMinus.Proofs.Layout.Range
import CMinusMinus.Proofs.Typing
import CMinusMinus.Proofs.Typing.Expressions
import CMinusMinus.Proofs.Typing.Soundness
import CMinusMinus.Proofs.Generation
import CMinusMinus.Proofs.Compilation
import CMinusMinus.Proofs.Generation.Labels
import CMinusMinus.Proofs.Typing.Functions
import CMinusMinus.Proofs.Height
import CMinusMinus.Proofs.Height.Code
import CMinusMinus.Proofs.Height.Statements
import CMinusMinus.Proofs.Height.Functions
import CMinusMinus.Proofs.Height.Programs
import CMinusMinus.Proofs.Generation.Declarations
import CMinusMinus.Proofs.Layout.Words
import CMinusMinus.Proofs.Layout.Access
import CMinusMinus.Proofs.Layout.Addresses
import CMinusMinus.Proofs.Form
import CMinusMinus.Proofs.Rules
import CMinusMinus.Proofs.Rules.Contexts
import CMinusMinus.Proofs.Rules.Expressions
import CMinusMinus.Proofs.Rules.Declarations
import CMinusMinus.Proofs.Rules.Statements
import CMinusMinus.Proofs.Rules.Programs
import CMinusMinus.Proofs.Scoping
import CMinusMinus.Proofs.Scoping.Expressions
import CMinusMinus.Proofs.Scoping.Declarations
import CMinusMinus.Proofs.Scoping.Statements
import CMinusMinus.Proofs.Scoping.Sites
import CMinusMinus.Proofs.Scoping.Programs
import CMinusMinus.Proofs.Derivation
import CMinusMinus.Proofs.Derivation.Reading
import CMinusMinus.Proofs.Derivation.Acceptance
import CMinusMinus.Proofs.Derivation.Statements
import CMinusMinus.Proofs.Derivation.Tokens
import CMinusMinus.Proofs.Derivation.Programs
import CMinusMinus.Proofs.Lexing
import CMinusMinus.Proofs.Lexing.Scanning
import CMinusMinus.Proofs.Printing
import CMinusMinus.Proofs.Printing.Expressions
import CMinusMinus.Proofs.Printing.Statements
import CMinusMinus.Proofs.Printing.Literals
import CMinusMinus.Proofs.Printing.Programs
import CMinusMinus.Proofs.Generation.Numbers
import CMinusMinus.Proofs.Generation.Distinct
import CMinusMinus.Proofs.Lexing.Stopping
import CMinusMinus.Proofs.Reporting
import CMinusMinus.Proofs.Reporting.Answers
import CMinusMinus.Proofs.Generation.Inlining
import CMinusMinus.Proofs.Generation.Linking
import CMinusMinus.Proofs.Generation.Pooling
import CMinusMinus.Proofs.Spans
import CMinusMinus.Proofs.Spans.Checking
import CMinusMinus.Proofs.Spans.Programs
import CMinusMinus.Proofs.Spans.Reading
import CMinusMinus.Proofs.Listing
import CMinusMinus.Proofs.Listing.Programs
import CMinusMinus.Proofs.Locality
import CMinusMinus.Proofs.Locality.Code
import CMinusMinus.Proofs.Locality.Programs
import CMinusMinus.Proofs.Execution.Frames
import CMinusMinus.Proofs.Execution.Operators
import CMinusMinus.Proofs.Generation.Constants
import CMinusMinus.Proofs.Demands
import CMinusMinus.Proofs.Blame
import CMinusMinus.Proofs.Blame.Checking
import CMinusMinus.Proofs.Blame.Programs
import CMinusMinus.Proofs.Renaming
import CMinusMinus.Proofs.Renaming.Resolving
import CMinusMinus.Proofs.Renaming.Declarations
import CMinusMinus.Proofs.Renaming.Checking
import CMinusMinus.Proofs.Renaming.Code
import CMinusMinus.Proofs.Renaming.Programs
import CMinusMinus.Proofs.Execution.Calls
import CMinusMinus.Proofs.Annotations
import CMinusMinus.Proofs.Generation.Bindings
import CMinusMinus.Proofs.Places.Pieces
import CMinusMinus.Proofs.Deletion
import CMinusMinus.Proofs.Deletion.Programs
import CMinusMinus.Proofs.Places.Lines
import CMinusMinus.Proofs.Places.Programs
import CMinusMinus.Proofs.Execution.Control
import CMinusMinus.Proofs.Execution.Functions
import CMinusMinus.Proofs.Execution.Programs
import CMinusMinus.Proofs.Nesting
import CMinusMinus.Proofs.Nesting.Reading
import CMinusMinus.Proofs.Places.Excerpts
import CMinusMinus.Proofs.Typing.Recorded
import CMinusMinus.Proofs.Meaning.Interpretation
import CMinusMinus.Proofs.Truth
import CMinusMinus.Proofs.Truth.Runs
import CMinusMinus.Proofs.Truth.Arrival
import CMinusMinus.Proofs.Truth.Programs
import CMinusMinus.Proofs.Printing.Separators
import CMinusMinus.Proofs.Text
import CMinusMinus.Proofs.Reporting.Names
import CMinusMinus.Proofs.Lexing.Escapes
import CMinusMinus.Proofs.Reporting.Messages
import CMinusMinus.Proofs.Outlines
import CMinusMinus.Proofs.Outlines.Programs
import CMinusMinus.Proofs.Machine.Comments
import CMinusMinus.Proofs.Machine.Calling
import CMinusMinus.Proofs.History
import CMinusMinus.Proofs.History.Openings
import CMinusMinus.Proofs.History.Answers
