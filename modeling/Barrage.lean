import Barrage.Main
import Barrage.Sandbox
import Barrage.Proofs.Batch.FailFast
import Barrage.Proofs.Expression.Bytes
import Barrage.Proofs.Expression.Dependence
import Barrage.Proofs.Expression.Evaluation
import Barrage.Proofs.Expression.Recognition
import Barrage.Proofs.Host.Entering
import Barrage.Proofs.Host.Inheritance
import Barrage.Proofs.Host.ShotBullets
import Barrage.Proofs.Journal.FailedFiles
import Barrage.Proofs.Journal.LoadFailures
import Barrage.Proofs.Markup.Coherence
import Barrage.Proofs.Markup.ErrorSnippets
import Barrage.Proofs.Markup.TokenCount
import Barrage.Proofs.Markup.WellFormed
import Barrage.Proofs.Motion.Angles
import Barrage.Proofs.Motion.Turning
import Barrage.Proofs.Pattern.CompiledText
import Barrage.Proofs.Pattern.Facing
import Barrage.Proofs.Pattern.LabelSearch
import Barrage.Proofs.Pattern.Requests
import Barrage.Proofs.Simulation.Balance
import Barrage.Proofs.Simulation.Capacity
import Barrage.Proofs.Simulation.Moves
import Barrage.Proofs.Simulation.Reordering
import Barrage.Proofs.Task.Expansion
import Barrage.Proofs.Task.Gliding
import Barrage.Proofs.Task.Invariant
import Barrage.Proofs.Task.Lasting
import Barrage.Proofs.Task.Marks
import Barrage.Proofs.Task.OwnValues
import Barrage.Proofs.Task.Passes
import Barrage.Proofs.Task.Reset
import Barrage.Proofs.Task.Steering
import Barrage.Proofs.Task.Termination
import Barrage.Proofs.Task.Waiting
