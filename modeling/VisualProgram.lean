import VisualProgram.Document.Printer
import VisualProgram.Document.Reader
import VisualProgram.Graph.Builder
import VisualProgram.Link
import VisualProgram.Program
import VisualProgram.Proofs.Links
import VisualProgram.Proofs.Session
import VisualProgram.Registry.Standard
import VisualProgram.Rule.Describe
import VisualProgram.Proofs.Budget
import VisualProgram.Proofs.Locality
import VisualProgram.Proofs.Independence
import VisualProgram.Proofs.SharedPass
import VisualProgram.Proofs.Unguarded
import VisualProgram.Proofs.Parts
import VisualProgram.Proofs.Walks
import VisualProgram.Proofs.WellFormed
import VisualProgram.Proofs.Operations
import VisualProgram.Proofs.Diagnosis
import VisualProgram.Proofs.Reentry
import VisualProgram.Proofs.OperatorTrees
import VisualProgram.Proofs.Footprint
import VisualProgram.Proofs.Arena
import VisualProgram.Proofs.History
import VisualProgram.Proofs.Imports
import VisualProgram.Proofs.Reading
import VisualProgram.Proofs.RoundTrip
import VisualProgram.Proofs.Chains
import VisualProgram.Proofs.Fallback
import VisualProgram.Proofs.Names
import VisualProgram.Proofs.Characters
import VisualProgram.Proofs.Rows
import VisualProgram.Proofs.Layout
import VisualProgram.Proofs.Templates
import VisualProgram.Proofs.Indentation
import VisualProgram.Proofs.Bypass
import VisualProgram.Proofs.CodeRows
import VisualProgram.Proofs.Remarks
import VisualProgram.Proofs.Expressions
import VisualProgram.Proofs.Trees
import VisualProgram.Proofs.Arguments
import VisualProgram.Proofs.Comments
import VisualProgram.Proofs.Admission
import VisualProgram.Proofs.Grammar
import VisualProgram.Proofs.Selection
import VisualProgram.Proofs.Spellings
import VisualProgram.Proofs.Torn
import VisualProgram.Proofs.Edits
