import Corrections.Text.Fill
import Corrections.Text.Quoted
import Corrections.Text.Printable
import Corrections.Text.UpperCase
import Corrections.Text.DecimalDigit
import Corrections.Binary64.Basic
import Corrections.Binary64.Shortest
import Corrections.Binary64.Literal
import Corrections.Binary64.Reading
import Corrections.Compilation
import Corrections.Builder.Step
import Corrections.Run
import Corrections.Proofs.Acceptance
import Corrections.Proofs.Binary64.RoundTrip
import Corrections.Proofs.Code.Token
import Corrections.Proofs.Substitution
import Corrections.Proofs.Code.Execution
import Corrections.Proofs.Code.Constant
import Corrections.Proofs.Template
import Corrections.Proofs.Program
import Corrections.Proofs.Emission
import Corrections.Proofs.Selection
import Corrections.Proofs.Meaning
import Corrections.Proofs.Safety
import Corrections.Proofs.ErrorFlow
import Corrections.Proofs.Builder.History
import Corrections.Proofs.Category
import Corrections.Proofs.Code.Function
import Corrections.Proofs.Builder.RangeCheck
import Corrections.Proofs.Builder.Function
import Corrections.Proofs.Builder.Behaviour
import Corrections.Proofs.Builder.Save
import Corrections.Proofs.Run
import Corrections.Proofs.Builder.Definition
import Corrections.Proofs.CheckedFlow
import Corrections.Proofs.Directories
import Corrections.Proofs.Builder.Effects
import Corrections.Proofs.HeaderPlace
import Corrections.Proofs.Interruption
import Corrections.Proofs.Isolation
import Corrections.Proofs.Targets
import Corrections.Proofs.Description
import Corrections.Proofs.Code.Scope
import Corrections.Proofs.Redeclaration
import Corrections.Proofs.Confinement
import Corrections.Proofs.Binary64.Extended
import Corrections.Proofs.EdgeOrder
import Corrections.Proofs.BinCount
import Corrections.Proofs.Termination
import Corrections.Proofs.Hygiene
import Corrections.Proofs.Builder.BlankContent
import Corrections.Proofs.Complaints
import Corrections.Proofs.Code.Floating
import Corrections.Proofs.Numbers
import Corrections.Proofs.Builder.Bounds
import Corrections.Proofs.Clamping
import Corrections.Proofs.Builder.Enumerations
import Corrections.Proofs.Builder.Formatting
import Corrections.Proofs.CommandLine
import Corrections.Proofs.Balance
