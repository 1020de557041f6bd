import LogicForms.CallTree.Passes
import LogicForms.Construction.Substitution
import LogicForms.ElapsedTime
import LogicForms.Formula.Nameless
import LogicForms.Main
import LogicForms.Semantics
import LogicForms.Surface.Cursor
import LogicForms.Surface.Grammar
import LogicForms.Surface.WellFormed
import LogicForms.Proofs.Coincidence
import LogicForms.Proofs.FreshNames
import LogicForms.Proofs.Renaming
import LogicForms.Proofs.Extraction
import LogicForms.Proofs.Negation
import LogicForms.Proofs.Distribution
import LogicForms.Proofs.Skolem
import LogicForms.Proofs.Calls
import LogicForms.Proofs.Meaning
import LogicForms.Proofs.Reading
import LogicForms.Proofs.Parsing
import LogicForms.Proofs.Normalization
import LogicForms.Proofs.Tokens
import LogicForms.Proofs.Printing
import LogicForms.Proofs.RoundTrip
import LogicForms.Proofs.DrawnNames
import LogicForms.Proofs.Independence
import LogicForms.Proofs.Shapes
import LogicForms.Proofs.Fitting
import LogicForms.Construction.Passes
import LogicForms.Proofs.Checks
import LogicForms.Proofs.Failures
import LogicForms.Proofs.ErrorLines
import LogicForms.Proofs.Rows
import LogicForms.Proofs.Clauses
import LogicForms.Proofs.WrittenForms
import LogicForms.Proofs.Readability
import LogicForms.Proofs.CallDepth
import LogicForms.Proofs.Program
import LogicForms.Proofs.Spending
import LogicForms.Proofs.Satisfiability
import LogicForms.Proofs.Polarity
import LogicForms.Proofs.PrenexPaths
import LogicForms.Proofs.Locality
import LogicForms.Proofs.ErrorPositions
import LogicForms.Proofs.FixedPoints
import LogicForms.Proofs.Duality
import LogicForms.Proofs.SkolemTerms
import LogicForms.Proofs.Traversal
import LogicForms.Proofs.Stability
import LogicForms.Proofs.Substitution
import LogicForms.Proofs.ClausalForm
import LogicForms.Proofs.Words
import LogicForms.Proofs.Lexemes
import LogicForms.Proofs.Lexing
import LogicForms.Proofs.Replacing
import LogicForms.Proofs.Commands
import LogicForms.Proofs.CommandImages
import LogicForms.Proofs.CompleteCommands
import LogicForms.Proofs.StableText
import LogicForms.Proofs.VariableLists
import LogicForms.Proofs.Stamps
import LogicForms.Proofs.FreshNameSearch
import LogicForms.Proofs.Scopes
import LogicForms.CallTree.TracedBody
import LogicForms.Proofs.Nesting
