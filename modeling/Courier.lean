import Courier.Clock
import Courier.Configuration.Loading
import Courier.Document.Printer
import Courier.Log.Rotation
import Courier.Rehearsal.Bench
import Courier.Rehearsal.Stage
import Courier.Proofs.Act
import Courier.Proofs.Journal
import Courier.Proofs.Step
import Courier.Proofs.Attempt
import Courier.Proofs.Aftermath
import Courier.Proofs.Cycle
import Courier.Proofs.History
import Courier.Proofs.Acknowledgement
import Courier.Proofs.Budget
import Courier.Proofs.Termination
import Courier.Proofs.Retirement
import Courier.Proofs.GivingUp
import Courier.Proofs.Ledger
import Courier.Proofs.Balance
import Courier.Proofs.Frame
import Courier.Proofs.Succession
import Courier.Proofs.Stock
import Courier.Proofs.Success
import Courier.Proofs.Calls
import Courier.Proofs.Likeness
import Courier.Proofs.Batching
import Courier.Proofs.Draining
import Courier.Proofs.Conduct
import Courier.Proofs.Dispatch
import Courier.Proofs.Mediation
import Courier.Proofs.Sequences
import Courier.Proofs.Control
import Courier.Proofs.Tenure
import Courier.Proofs.Containment
import Courier.Proofs.Lifecycle
import Courier.Proofs.Approach
import Courier.Proofs.Resumption
import Courier.Proofs.Rotation
import Courier.Proofs.Loading
import Courier.Proofs.Pacing
import Courier.Proofs.Cadence
import Courier.Proofs.Slice
import Courier.Proofs.Deeds
import Courier.Proofs.Reporting
import Courier.Proofs.Tokens
import Courier.Proofs.Acquisition
import Courier.Proofs.Generations
import Courier.Proofs.Threshold
import Courier.Proofs.Defects
import Courier.Proofs.Numerals
import Courier.Proofs.Readings
import Courier.Proofs.Additions
import Courier.Proofs.TokenList
import Courier.Proofs.StatusCodes
import Courier.Proofs.Verdicts
import Courier.Proofs.Routing
import Courier.Proofs.Registrations
import Courier.Proofs.Encoding
import Courier.Proofs.Increments
import Courier.Proofs.Literals
