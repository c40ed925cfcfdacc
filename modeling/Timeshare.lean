import Timeshare.Storage.Archive
import Timeshare.Simulation
import Timeshare.Main
import Timeshare.Proofs.Process.Remaining
import Timeshare.Proofs.Scheduler.Placement
import Timeshare.Proofs.Scheduler.Isolation
import Timeshare.Proofs.Scheduler.Quiescence
import Timeshare.Proofs.Scheduler.Budget
import Timeshare.Proofs.Scheduler.Rotation
import Timeshare.Proofs.Scheduler.Fairness
import Timeshare.Proofs.Scheduler.Records
import Timeshare.Proofs.Scheduler.Outcome
import Timeshare.Proofs.Scheduler.Admission
import Timeshare.Proofs.Command.Filling
import Timeshare.Proofs.Loss
import Timeshare.Proofs.Scheduler.Precedence
import Timeshare.Proofs.Text.Words
import Timeshare.Proofs.Command.Grammar
import Timeshare.Proofs.Process.Branches
import Timeshare.Proofs.Scheduler.Accounting
import Timeshare.Proofs.Text.Lines
import Timeshare.Proofs.Console.Session
import Timeshare.Proofs.Labels
import Timeshare.Proofs.Process.Effects
import Timeshare.Proofs.Scheduler.Lookup
import Timeshare.Proofs.Console.Idle
import Timeshare.Proofs.Record
import Timeshare.Proofs.Console.Documents
import Timeshare.Proofs.Storage.Path
import Timeshare.Proofs.Storage.Placement
import Timeshare.Proofs.Storage.Records
import Timeshare.Proofs.Console.Files
import Timeshare.Proofs.Storage.Containment
import Timeshare.Proofs.Queue.Order
import Timeshare.Proofs.Process.Strict
import Timeshare.Proofs.Scheduler.Range
import Timeshare.Proofs.Status.Listing
import Timeshare.Proofs.Console.Listing
