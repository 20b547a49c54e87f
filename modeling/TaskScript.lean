import TaskScript.Main
import TaskScript.Proofs.Execution.Refinement
import TaskScript.Proofs.Sandbox.Coupling
import TaskScript.Proofs.Sandbox.Items
import TaskScript.Proofs.Sandbox.Refusal
import TaskScript.Proofs.Program.Parents
import TaskScript.Proofs.Program.Preorder
import TaskScript.Proofs.Program.Acceptance
import TaskScript.Proofs.Program.Lineage
import TaskScript.Proofs.Script.Places
import TaskScript.Proofs.Execution.Path
import TaskScript.Proofs.Execution.Discipline
import TaskScript.Proofs.Execution.Effects
import TaskScript.Proofs.Execution.Failure
import TaskScript.Proofs.Execution.History
import TaskScript.Proofs.Execution.Requests
import TaskScript.Proofs.Execution.StepLimit
import TaskScript.Proofs.Cube.Room
import TaskScript.Proofs.Evaluation.Demands
import TaskScript.Proofs.Evaluation.Room
import TaskScript.Proofs.Evaluation.Selection
import TaskScript.Proofs.Execution.Room
import TaskScript.Proofs.Execution.Selection
import TaskScript.Proofs.Sandbox.Room
import TaskScript.Proofs.Foreman.Finality
import TaskScript.Proofs.Foreman.Undo
import TaskScript.Proofs.Sandbox.Chronicle
import TaskScript.Proofs.Sandbox.Bounds
import TaskScript.Proofs.Document.RoundTrip
import TaskScript.Proofs.Cube.Metric
import TaskScript.Proofs.Scan.Nearest
import TaskScript.Proofs.Sandbox.Sight
import TaskScript.Proofs.Sandbox.Dead
import TaskScript.Proofs.Scheduler.Order
import TaskScript.Proofs.Scheduler.Assignment
import TaskScript.Proofs.Script.Recovery
import TaskScript.Proofs.Task.Supply
import TaskScript.Proofs.Sandbox.Paths
import TaskScript.Proofs.Sandbox.Metrics
import TaskScript.Proofs.Program.Traversal
import TaskScript.Proofs.Cube.Geometry
import TaskScript.Proofs.Foreman.ReadBack
import TaskScript.Proofs.CommandLine.Check
