import ServiceHours.Calendar.Clock
import ServiceHours.Calendar.Reading
import ServiceHours.Control.Setup
import ServiceHours.Proofs.Control.Convergence
import ServiceHours.Proofs.Control.Independence
import ServiceHours.Proofs.Control.Ready
import ServiceHours.Proofs.Remote.CallSequence
import ServiceHours.Proofs.Schedule.Meaning
import ServiceHours.Proofs.Week.Running
import ServiceHours.Proofs.Week.Sequence
import ServiceHours.Remote.Fault
import ServiceHours.View.Data
import ServiceHours.View.Status
import ServiceHours.Proofs.Control.CallLog
import ServiceHours.Proofs.Control.Preview
import ServiceHours.Proofs.Week.PerService
import ServiceHours.Proofs.Week.Today
import ServiceHours.Proofs.Control.References
import ServiceHours.Proofs.Control.Dangling
import ServiceHours.Proofs.Control.Collection
import ServiceHours.Proofs.Schedule.Grammar
import ServiceHours.Proofs.Schedule.Revalidation
import ServiceHours.Proofs.Control.Deadlines
import ServiceHours.Proofs.Control.DecisionTable
import ServiceHours.Proofs.Schedule.RoundTrip
import ServiceHours.Proofs.Week.Again
import ServiceHours.Proofs.Remote.Stopping
import ServiceHours.Proofs.Schedule.Substitution
import ServiceHours.Proofs.Control.Accounting
import ServiceHours.Proofs.Week.Listing
import ServiceHours.Proofs.View.Status
import ServiceHours.Proofs.View.Report
import ServiceHours.Proofs.Settings.Offset
import ServiceHours.Proofs.Settings.Reading
import ServiceHours.Proofs.Remote.Moves
import ServiceHours.Proofs.Service.Decomposition
