import RunnerYard.Base.Time
import RunnerYard.Base.Lists
import RunnerYard.Base.Table
import RunnerYard.Interaction.Program
import RunnerYard.Interaction.Fan
import RunnerYard.Provider.Error
import RunnerYard.Budget.Ledger
import RunnerYard.Budget.Window
import RunnerYard.Budget.Validate
import RunnerYard.Controller.State
import RunnerYard.Controller.Journal
import RunnerYard.Controller.Gate
import RunnerYard.Controller.Status
import RunnerYard.Controller.World
import RunnerYard.Controller.Scaler
import RunnerYard.Controller.System
import RunnerYard.Controller.Effects
import RunnerYard.Controller.History
import RunnerYard.Budget.Coverage
import RunnerYard.Controller.Custody
import RunnerYard.Controller.Retirement
import RunnerYard.Controller.Launch
import RunnerYard.Controller.Reconcile
import RunnerYard.Controller.Handlers
import RunnerYard.Controller.Guarantees
import RunnerYard.Controller.Rejection
import RunnerYard.Controller.Protocol
import RunnerYard.Controller.Discipline
import RunnerYard.Controller.Registration
import RunnerYard.Base.Text
import RunnerYard.Pool.State
import RunnerYard.Pool.Sections
import RunnerYard.Interaction.Threads
import RunnerYard.Pool.World
import RunnerYard.Pool.Compute
import RunnerYard.Interaction.Runs
import RunnerYard.Pool.System
import RunnerYard.Pool.Effects
import RunnerYard.Pool.Custody
import RunnerYard.Pool.Keeping
import RunnerYard.Pool.Goroutines
import RunnerYard.Pool.Returns
import RunnerYard.Pool.Inventory
import RunnerYard.Budget.Published
import RunnerYard.Budget.Rollback
import RunnerYard.Controller.Durability
import RunnerYard.Base.Regex
import RunnerYard.MergeQueue.Marker
import RunnerYard.MergeQueue.RoundTrip
import RunnerYard.MergeQueue.Checks
import RunnerYard.MergeQueue.Plan
import RunnerYard.Base.Ancestry
import RunnerYard.Interaction.Fallible
import RunnerYard.Interaction.Process
import RunnerYard.MergeQueue.GitHub
import RunnerYard.MergeQueue.Books
import RunnerYard.MergeQueue.Load
import RunnerYard.Budget.Waiting
import RunnerYard.Interaction.Traces
import RunnerYard.MergeQueue.Order
import RunnerYard.MergeQueue.Forming
import RunnerYard.MergeQueue.Timeouts
import RunnerYard.Interaction.Execute
import RunnerYard.MergeQueue.Idle
import RunnerYard.Controller.Completions
import RunnerYard.Interaction.Escort
import RunnerYard.Pool.Placement
import RunnerYard.Controller.Speculation
import RunnerYard.Controller.Covering
import RunnerYard.MergeQueue.Reads
import RunnerYard.MergeQueue.Apply
import RunnerYard.MergeQueue.Conduct
import RunnerYard.MergeQueue.Landing
import RunnerYard.Controller.Outages
import RunnerYard.Provider.Limiter
import RunnerYard.Pool.Reserves
import RunnerYard.Pool.Entries
import RunnerYard.Pool.Growth
import RunnerYard.Pool.Brake
import RunnerYard.Pool.Listings
import RunnerYard.HostAgent.Rootfs
import RunnerYard.Pool.Overflow
import RunnerYard.Registry.Reference
import RunnerYard.Controller.Alerts
import RunnerYard.HostAgent.Storage
import RunnerYard.HostAgent.Cpus
import RunnerYard.HostAgent.Workspaces
import RunnerYard.Controller.Sessions
import RunnerYard.Pool.Routing
import RunnerYard.Provider.Creation
