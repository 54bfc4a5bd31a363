import Sluice.Identifier.Alphanumeric
import Sluice.Identifier.Counter
import Sluice.Identifier.Random
import Sluice.Machine.Script
import Sluice.Machine.Table
import Sluice.Main
import Sluice.Proofs.Fair.Calls
import Sluice.Proofs.Heap
import Sluice.Proofs.Roster
import Sluice.Scenario.Daemon
import Sluice.Scenario.Deliverer
import Sluice.Scenario.Inbox
import Sluice.Scenario.Pool
import Sluice.Scenario.Timer
import Sluice.Proofs.Fair.Slots
import Sluice.Proofs.Fair.Effect
import Sluice.Proofs.Fair.Refinement
import Sluice.Proofs.Fair.Ledger
import Sluice.Proofs.Fair.Share
import Sluice.Proofs.Fair.Overtaking
import Sluice.Proofs.Fair.Order
import Sluice.Proofs.Rate.Window
import Sluice.Proofs.Rate.Budget
import Sluice.Proofs.Fair.Supply
import Sluice.Proofs.Delivery.Effect
import Sluice.Proofs.Delivery.Order
import Sluice.Proofs.Fair.Stock
import Sluice.Proofs.Worker.Effect
import Sluice.Proofs.Worker.Ending
import Sluice.Proofs.Delivery.Record
import Sluice.Proofs.Delivery.Books
import Sluice.Proofs.Delivery.Pace
import Sluice.Proofs.Delivery.Lifecycle
import Sluice.Proofs.Delivery.Handover
import Sluice.Proofs.Delivery.Shutdown
import Sluice.Proofs.Schedule
import Sluice.Proofs.Worker.Tally
import Sluice.Proofs.Delivery.Removal
import Sluice.Proofs.Delivery.Abandonment
import Sluice.Proofs.Rate.Waiting
import Sluice.Proofs.Fair.Head
import Sluice.Proofs.Delivery.Sleep
import Sluice.Proofs.Worker.Barrier
import Sluice.Proofs.Worker.Channel
import Sluice.Proofs.Worker.Feed
import Sluice.Proofs.Daemon.Effect
import Sluice.Proofs.Daemon.Coverage
import Sluice.Proofs.Daemon.Notice
import Sluice.Proofs.Machine.Lifecycle
import Sluice.Proofs.Pool.Effect
import Sluice.Proofs.Pool.Accounting
import Sluice.Proofs.Timer.Effect
import Sluice.Proofs.Timer.Stopping
import Sluice.Proofs.Timer.Countdown
import Sluice.Proofs.Daemon.Stopping
import Sluice.Proofs.Rate.Admission
import Sluice.Proofs.Number.Exact
import Sluice.Proofs.Fair.Advance
import Sluice.Proofs.Fair.Rounds
import Sluice.Proofs.Rate.Retry
import Sluice.Proofs.Rate.Comparison
import Sluice.Proofs.Rate.Backwards
import Sluice.Proofs.Delivery.Rousing
import Sluice.Proofs.Delivery.Wakeup
import Sluice.Proofs.Delivery.Readings
import Sluice.Proofs.Delivery.Budget
import Sluice.Proofs.Pool.Marks
import Sluice.Proofs.Pool.Custody
import Sluice.Proofs.Pool.Lending
import Sluice.Proofs.Daemon.Refusal
import Sluice.Proofs.Daemon.Backoff
import Sluice.Proofs.Worker.Pausing
import Sluice.Proofs.Machine.Automaton
import Sluice.Proofs.Fair.Frame
import Sluice.Proofs.Fair.Crowding
import Sluice.Proofs.Identifier.Enumeration
import Sluice.Proofs.Delivery.Settings
import Sluice.Proofs.Text.Grammar
import Sluice.Proofs.Delivery.Override
import Sluice.Proofs.Fair.Backlog
import Sluice.Proofs.Delivery.Service
import Sluice.Proofs.Contest.Course
import Sluice.Proofs.Contest.Refill
import Sluice.Proofs.Clockwork
import Sluice.Proofs.Contest.Balance
