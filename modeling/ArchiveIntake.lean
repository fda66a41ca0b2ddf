import ArchiveIntake.Clients
import ArchiveIntake.Locks
import ArchiveIntake.Main
import ArchiveIntake.Text.Visible
import ArchiveIntake.Proofs.Faults
import ArchiveIntake.Proofs.Json.Reading
import ArchiveIntake.Proofs.Name
import ArchiveIntake.Proofs.Store
import ArchiveIntake.Proofs.Item
import ArchiveIntake.Proofs.Promotion
import ArchiveIntake.Proofs.Conservation
import ArchiveIntake.Proofs.AutoStart
import ArchiveIntake.Proofs.Pending
import ArchiveIntake.Proofs.ClosedForm
import ArchiveIntake.Proofs.Acceptance
import ArchiveIntake.Proofs.Outage
import ArchiveIntake.Proofs.Course
import ArchiveIntake.Proofs.Residue
import ArchiveIntake.Proofs.Interruption
import ArchiveIntake.Proofs.Mirror
import ArchiveIntake.Proofs.Likeness
import ArchiveIntake.Proofs.Interchange
import ArchiveIntake.Proofs.Settled
import ArchiveIntake.Proofs.Resubmission
import ArchiveIntake.Proofs.Cells
import ArchiveIntake.Proofs.Locality
import ArchiveIntake.Proofs.Growth
import ArchiveIntake.Proofs.Independence
import ArchiveIntake.Proofs.Batch
import ArchiveIntake.Proofs.Steps
import ArchiveIntake.Proofs.Origin
import ArchiveIntake.Proofs.QueuedPolicy
import ArchiveIntake.Proofs.Exclusion
import ArchiveIntake.Proofs.Disjoint
import ArchiveIntake.Proofs.Serial
import ArchiveIntake.Proofs.Race
import ArchiveIntake.Proofs.StoreWrites
import ArchiveIntake.Proofs.Retention
import ArchiveIntake.Proofs.AliasIndex
import ArchiveIntake.Proofs.Answers
import ArchiveIntake.Proofs.Standing
import ArchiveIntake.Proofs.Vocabulary
import ArchiveIntake.Proofs.Positivity
import ArchiveIntake.Proofs.Omission
import ArchiveIntake.Proofs.SharedParameters
import ArchiveIntake.Proofs.Responses
import ArchiveIntake.Proofs.ValueField
import ArchiveIntake.Proofs.Started
import ArchiveIntake.Proofs.Readback
import ArchiveIntake.Proofs.Transport
import ArchiveIntake.Proofs.RecordWrites
import ArchiveIntake.Proofs.Transactions
import ArchiveIntake.Proofs.Members
import ArchiveIntake.Proofs.RoundTrip
import ArchiveIntake.Proofs.Canonical
import ArchiveIntake.Proofs.PlainGrammar
import ArchiveIntake.Proofs.PeriodForms
