import ConeLift.Main
import ConeLift.Recorder
import ConeLift.Scalar.Extended
import ConeLift.Wire.Container
import ConeLift.Proofs.Traversal
import ConeLift.Proofs.Lift.Columns
import ConeLift.Proofs.Lift.Assembly
import ConeLift.Proofs.Lift.Outcome
import ConeLift.Proofs.Finite
import ConeLift.Proofs.Extremes
import ConeLift.Proofs.Points
import ConeLift.Proofs.QuadraticValues
import ConeLift.Proofs.Lift.RowPoints
import ConeLift.Proofs.Lift.ColumnPoints
import ConeLift.Proofs.Lift.QuadraticPoints
import ConeLift.Proofs.Lift.Exactness
import ConeLift.Proofs.LoadFailure
import ConeLift.Proofs.Calls
import ConeLift.Proofs.LinearCalls
import ConeLift.Proofs.Reading
import ConeLift.Proofs.Solving
import ConeLift.Proofs.LiftedProgram
import ConeLift.Proofs.Gradients
import ConeLift.Proofs.LinearSoundness
import ConeLift.Proofs.Segments
import ConeLift.Proofs.SmoothCalls
import ConeLift.Proofs.Boxes
import ConeLift.Proofs.LiftedVerdicts
import ConeLift.Proofs.SmoothAttempts
import ConeLift.Proofs.ConicSoundness
import ConeLift.Proofs.Lift.ColumnRanges
import ConeLift.Proofs.Outcomes
import ConeLift.Proofs.Session
import ConeLift.Proofs.BridgeSession
import ConeLift.Proofs.SessionErrors
import ConeLift.Proofs.Violation
import ConeLift.Proofs.SessionCalls
import ConeLift.Proofs.InfeasibleVerdicts
import ConeLift.Proofs.LoadCalls
import ConeLift.Proofs.Senses
import ConeLift.Proofs.AttemptErrors
import ConeLift.Proofs.Answers
import ConeLift.Proofs.BoxReach
import ConeLift.Proofs.UnboundedVerdicts
import ConeLift.Proofs.RowSplits
import ConeLift.Proofs.Expansion
import ConeLift.Proofs.Derivatives
import ConeLift.Proofs.Lift.Layout
import ConeLift.Proofs.SmoothVerdicts
import ConeLift.Proofs.ImpossibleRows
import ConeLift.Proofs.Lift.Refusals
import ConeLift.Proofs.Lift.Spelling
import ConeLift.Proofs.Lift.Renaming
import ConeLift.Proofs.Coordinates
import ConeLift.Proofs.Documents
import ConeLift.Proofs.Views
import ConeLift.Proofs.Instances
import ConeLift.Proofs.UndefinedExcesses
import ConeLift.Proofs.IndexContainers
import ConeLift.Proofs.SolverReports
