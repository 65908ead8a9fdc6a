import CentralPath.Backend.Adapter
import CentralPath.Backend.Basic
import CentralPath.Backend.Coupling
import CentralPath.Backend.Elimination
import CentralPath.Backend.Engine
import CentralPath.Backend.Job
import CentralPath.Backend.Scripted
import CentralPath.Backend.Session
import CentralPath.Binary.Double
import CentralPath.Binary.Rounding
import CentralPath.Decimal.Digits
import CentralPath.Decimal.Layout
import CentralPath.Decimal.Reading
import CentralPath.Direct
import CentralPath.Fault
import CentralPath.Fault.Message
import CentralPath.InteriorPoint.Component
import CentralPath.InteriorPoint.History
import CentralPath.InteriorPoint.Iteration
import CentralPath.InteriorPoint.Options
import CentralPath.InteriorPoint.Run
import CentralPath.InteriorPoint.Setting
import CentralPath.InteriorPoint.Solve
import CentralPath.InteriorPoint.Start
import CentralPath.InteriorPoint.State
import CentralPath.InteriorPoint.StepLength
import CentralPath.Journal.Event
import CentralPath.Journal.Format
import CentralPath.Journal.Level
import CentralPath.Journal.Registry
import CentralPath.Journal.Watch
import CentralPath.Newton.System
import CentralPath.Problem.Basic
import CentralPath.Problem.Box
import CentralPath.Problem.Given
import CentralPath.Problem.Nested
import CentralPath.Problem.Target
import CentralPath.Proofs.Backend.Cramer
import CentralPath.Proofs.Backend.Determined
import CentralPath.Proofs.Backend.Division
import CentralPath.Proofs.Backend.Exact
import CentralPath.Proofs.Backend.Factors
import CentralPath.Proofs.Backend.History
import CentralPath.Proofs.Backend.Ideal
import CentralPath.Proofs.Backend.Keeping
import CentralPath.Proofs.Backend.Observed
import CentralPath.Proofs.Backend.Recorded
import CentralPath.Proofs.Backend.Tandem
import CentralPath.Proofs.Backend.Verified
import CentralPath.Proofs.Backend.Work
import CentralPath.Proofs.Binary.Rounding
import CentralPath.Proofs.Direct
import CentralPath.Proofs.Direct.Calls
import CentralPath.Proofs.Direct.FailedSetups
import CentralPath.Proofs.Direct.KeptFactors
import CentralPath.Proofs.Direct.Observed
import CentralPath.Proofs.InteriorPoint.Answers
import CentralPath.Proofs.InteriorPoint.AnyDirection
import CentralPath.Proofs.InteriorPoint.Assembled
import CentralPath.Proofs.InteriorPoint.Assembly
import CentralPath.Proofs.InteriorPoint.Atomicity
import CentralPath.Proofs.InteriorPoint.Comparison
import CentralPath.Proofs.InteriorPoint.Conversation
import CentralPath.Proofs.InteriorPoint.Coupled
import CentralPath.Proofs.InteriorPoint.Division
import CentralPath.Proofs.InteriorPoint.FirstIterates
import CentralPath.Proofs.InteriorPoint.Formulations
import CentralPath.Proofs.InteriorPoint.Framed
import CentralPath.Proofs.InteriorPoint.Handled
import CentralPath.Proofs.InteriorPoint.InPlace
import CentralPath.Proofs.InteriorPoint.Indifference
import CentralPath.Proofs.InteriorPoint.Interchange
import CentralPath.Proofs.InteriorPoint.Interior
import CentralPath.Proofs.InteriorPoint.Iterates
import CentralPath.Proofs.InteriorPoint.Ledger
import CentralPath.Proofs.InteriorPoint.Loaded
import CentralPath.Proofs.InteriorPoint.Measurable
import CentralPath.Proofs.InteriorPoint.NormalRows
import CentralPath.Proofs.InteriorPoint.Observed
import CentralPath.Proofs.InteriorPoint.Outcomes
import CentralPath.Proofs.InteriorPoint.Protocol
import CentralPath.Proofs.InteriorPoint.RatioTest
import CentralPath.Proofs.InteriorPoint.Reachable
import CentralPath.Proofs.InteriorPoint.Ready
import CentralPath.Proofs.InteriorPoint.Residuals
import CentralPath.Proofs.InteriorPoint.Reverification
import CentralPath.Proofs.InteriorPoint.RowChoice
import CentralPath.Proofs.InteriorPoint.Solving
import CentralPath.Proofs.InteriorPoint.Starting
import CentralPath.Proofs.InteriorPoint.Twins
import CentralPath.Proofs.InteriorPoint.Unconstrained
import CentralPath.Proofs.Journal.Following
import CentralPath.Proofs.Newton.Blocks
import CentralPath.Proofs.Newton.Directions
import CentralPath.Proofs.Newton.Elimination
import CentralPath.Proofs.Newton.Refusals
import CentralPath.Proofs.Newton.Step
import CentralPath.Proofs.Newton.Updates
import CentralPath.Proofs.Problem.Blocks
import CentralPath.Proofs.Problem.Given
import CentralPath.Proofs.Problem.NormalRows
import CentralPath.Proofs.Problem.Parts
import CentralPath.Proofs.Problem.Thirds
import CentralPath.Proofs.Scalar.OrderedField
import CentralPath.Proofs.Scalar.Rational
import CentralPath.Proofs.Shadow
import CentralPath.Proofs.Sparse.Blocks
import CentralPath.Proofs.Sparse.Buffers
import CentralPath.Proofs.Sparse.Canonical
import CentralPath.Proofs.Sparse.CanonicalForm
import CentralPath.Proofs.Sparse.Capacity
import CentralPath.Proofs.Sparse.Columns
import CentralPath.Proofs.Sparse.Dense
import CentralPath.Proofs.Sparse.Equality
import CentralPath.Proofs.Sparse.Exchange
import CentralPath.Proofs.Sparse.Growth
import CentralPath.Proofs.Sparse.Learning
import CentralPath.Proofs.Sparse.Loading
import CentralPath.Proofs.Sparse.Mirror
import CentralPath.Proofs.Sparse.MirroredRuns
import CentralPath.Proofs.Sparse.Ownership
import CentralPath.Proofs.Sparse.Positions
import CentralPath.Proofs.Sparse.Products
import CentralPath.Proofs.Sparse.Recording
import CentralPath.Proofs.Sparse.Redistribution
import CentralPath.Proofs.Sparse.Restoring
import CentralPath.Proofs.Sparse.Room
import CentralPath.Proofs.Sparse.Search
import CentralPath.Proofs.Sparse.Shifting
import CentralPath.Proofs.Sparse.Soundness
import CentralPath.Proofs.Sparse.Storage
import CentralPath.Proofs.Sparse.Straying
import CentralPath.Proofs.Sparse.Table
import CentralPath.Proofs.Sparse.Values
import CentralPath.Proofs.Sparse.Verification
import CentralPath.Proofs.Sparse.Windows
import CentralPath.Proofs.Sparse.Writing
import CentralPath.Proofs.Vector
import CentralPath.Proofs.Workspace.Bench
import CentralPath.Proofs.Workspace.Conversion
import CentralPath.Proofs.Workspace.DebugMode
import CentralPath.Proofs.Workspace.Employed
import CentralPath.Proofs.Workspace.Observed
import CentralPath.Proofs.Workspace.Script
import CentralPath.Proofs.Workspace.Targets
import CentralPath.Scalar
import CentralPath.Scalar.Double
import CentralPath.Sparse.Access
import CentralPath.Sparse.Action
import CentralPath.Sparse.Arithmetic
import CentralPath.Sparse.Basic
import CentralPath.Sparse.Canonical
import CentralPath.Sparse.Dense
import CentralPath.Sparse.Describe
import CentralPath.Sparse.Exchange
import CentralPath.Sparse.IndexSet
import CentralPath.Sparse.Insertion
import CentralPath.Sparse.Pattern
import CentralPath.Sparse.Product
import CentralPath.Sparse.Raw
import CentralPath.Sparse.Slice
import CentralPath.Sparse.Spread
import CentralPath.Sparse.Uncut
import CentralPath.Sparse.Validity
import CentralPath.Text.Blank
import CentralPath.Text.Lines
import CentralPath.Text.Quoted
import CentralPath.Text.Visible
import CentralPath.Vector
import CentralPath.Workspace.Basic
import CentralPath.Workspace.Console
import CentralPath.Workspace.Matrices
import CentralPath.Workspace.Solvers
import CentralPath.Workspace.Systems
