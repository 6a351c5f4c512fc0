import RunnerYard.Budget.Ledger

/-!
# The published fleet status

`status.go`: what the reporter's methods change, and the health `derive` reads off it after every change. The latency figures, which are floating-point averages, and the identity fields of the status file are left out; nothing in the controller reads them.
-/

namespace RunnerYard

structure ScaleSetStatus where
  name : String
  assignedJobs : Int := 0
  desiredWorkers : Int := 0
  workers : Int := 0
  deriving DecidableEq, Repr

structure GitHubStatus where
  assignedJobs : Int := 0
  desiredWorkers : Int := 0
  lastActivityAt : Int := 0
  lastEvent : String := ""
  scaleSets : List ScaleSetStatus := []
  deriving DecidableEq, Repr

structure WorkerStatus where
  actual : Int := 0
  starting : Int := 0
  busy : Int := 0
  idle : Int := 0
  unknown : Int := 0
  orphanCandidates : Int := 0
  pendingRetirements : Int := 0
  overdueRetirements : Int := 0
  maximum : Int
  saturated : Bool := false
  deriving DecidableEq, Repr

structure CapacityStatus where
  configured : Int
  effective : Int
  rejections : Nat := 0
  rejection : String := ""
  retryAt : Int := 0
  deriving DecidableEq, Repr

structure LaunchStatus where
  rejections : Nat := 0
  rejection : String := ""
  retryAt : Int := 0
  deriving DecidableEq, Repr

/-- `BudgetStatus`, less the burn rate and the horizon computed from it. -/
structure BudgetStatus where
  limitSeconds : Int
  usedSeconds : Int
  reservedSeconds : Int
  remainingSeconds : Int
  windowSeconds : Int
  refusalReason : String := ""
  nextAvailableAt : Int := 0
  deriving DecidableEq, Repr

inductive Health where
  | starting
  | ready
  | degraded
  deriving DecidableEq, Repr

structure FleetStatus where
  health : Health := .starting
  reason : String := ""
  github : GitHubStatus
  workers : WorkerStatus
  capacity : CapacityStatus
  launch : LaunchStatus := {}
  budget : BudgetStatus
  deriving DecidableEq, Repr

structure StatusReporter where
  status : FleetStatus
  failure : String := ""
  deriving DecidableEq, Repr

inductive StatusUpdate where
  | githubActivity (event : String)
  | desired (scaleSet : String) (assigned desired : Int)
  | scaleSetWorkers (scaleSet : String) (count : Int)
  | workers (actual busy idle unknown : Int)
  | starting (delta : Int)
  | orphans (count : Int)
  | retirements (count overdue : Int)
  | budget (snapshot : BudgetStatus)
  | capacityRejected (effective : Int) (reason : String) (retryAt : Int)
  | capacityRecovered
  | launchRejected (reason : String) (retryAt : Int)
  | launchRecovered
  | degraded (reason : String)
  | recovered
  deriving DecidableEq, Repr

def maxUint64 : Nat := 2 ^ 64 - 1

def saturatingSucc (n : Nat) : Nat := if n < maxUint64 then n + 1 else n

namespace UsageBudget

def snapshot (b : UsageBudget) (now : Int) : BudgetStatus :=
  let counted := b.entries.filter fun entry => !entry.stale (now - b.window)
  let reserved := ((counted.filter (·.active)).map (·.seconds)).sum
  let used := ((counted.filter fun entry => !entry.active).map (·.seconds)).sum
  let limit := Duration.seconds b.limit
  let remaining := max 0 (limit - used - reserved)
  let refused : Bool := decide (remaining < Duration.seconds b.reservation)
  { limitSeconds := limit
    usedSeconds := used
    reservedSeconds := reserved
    remainingSeconds := remaining
    windowSeconds := Duration.seconds b.window
    refusalReason := if refused then "usage_budget_exhausted" else ""
    nextAvailableAt := if refused then b.nextAvailable now else 0 }

end UsageBudget

namespace FleetStatus

def recordDesired (status : FleetStatus) (scaleSet : String) (assigned desired : Int) : FleetStatus :=
  let scaleSets := status.github.scaleSets.map fun entry =>
    if entry.name = scaleSet then { entry with assignedJobs := max 0 assigned, desiredWorkers := max 0 desired } else entry
  if scaleSets.isEmpty then
    { status with github := { status.github with assignedJobs := max 0 assigned, desiredWorkers := max 0 desired } }
  else
    { status with github := { status.github with
        scaleSets
        assignedJobs := (scaleSets.map (·.assignedJobs)).sum
        desiredWorkers := (scaleSets.map (·.desiredWorkers)).sum } }

/-- The change each method makes to the status; `now` is the reporter's clock. -/
def change (status : FleetStatus) (now : Int) : StatusUpdate → FleetStatus
  | .githubActivity event => { status with github := { status.github with lastActivityAt := now, lastEvent := event } }
  | .desired scaleSet assigned desired =>
    let status := status.recordDesired scaleSet assigned desired
    { status with github := { status.github with lastActivityAt := now, lastEvent := "desired_count" } }
  | .scaleSetWorkers scaleSet count =>
    { status with github := { status.github with
        scaleSets := status.github.scaleSets.map fun entry =>
          if entry.name = scaleSet then { entry with workers := max 0 count } else entry } }
  | .workers actual busy idle unknown =>
    { status with workers := { status.workers with
        actual := max 0 actual, busy := max 0 busy, idle := max 0 idle, unknown := max 0 unknown } }
  | .starting delta => { status with workers := { status.workers with starting := max 0 (status.workers.starting + delta) } }
  | .orphans count => { status with workers := { status.workers with orphanCandidates := max 0 count } }
  | .retirements count overdue =>
    { status with workers := { status.workers with
        pendingRetirements := max 0 count, overdueRetirements := min (max 0 overdue) (max 0 count) } }
  | .budget snapshot => { status with budget := snapshot }
  | .capacityRejected effective reason retryAt =>
    { status with capacity := { status.capacity with
        effective := min (max 0 effective) status.capacity.configured
        rejections := saturatingSucc status.capacity.rejections
        rejection := reason
        retryAt } }
  | .capacityRecovered =>
    { status with capacity := { status.capacity with effective := status.capacity.configured, rejection := "", retryAt := 0 } }
  | .launchRejected reason retryAt =>
    { status with launch := { rejections := saturatingSucc status.launch.rejections, rejection := reason, retryAt } }
  | .launchRecovered => { status with launch := { status.launch with rejection := "", retryAt := 0 } }
  | .degraded _ => status
  | .recovered => status

/-- `derive`: whether the fleet is saturated, and its health with the first reason that applies. -/
def derive (status : FleetStatus) (failure : String) : FleetStatus :=
  let effective := if status.capacity.configured = 0 then status.workers.maximum else status.capacity.effective
  let workers := { status.workers with saturated := decide (effective ≤ status.workers.actual + status.workers.starting) }
  let (health, reason) : Health × String :=
    if failure ≠ "" then (.degraded, failure)
    else if status.capacity.rejection ≠ "" then (.degraded, "provider_capacity_exhausted")
    else if status.launch.rejection ≠ "" then (.degraded, "provider_launch_rejected")
    else if 0 < status.workers.overdueRetirements then (.degraded, "runner_retirements_pending")
    else if 0 < status.workers.orphanCandidates then (.degraded, "orphan_candidates")
    else if status.budget.refusalReason ≠ "" then (.degraded, status.budget.refusalReason)
    else if status.github.lastActivityAt = 0 then (.starting, "")
    else (.ready, "")
  { status with workers, health, reason }

end FleetStatus

namespace StatusReporter

/-- `update` with one of the reporter's methods. -/
def update (reporter : StatusReporter) (now : Int) (u : StatusUpdate) : StatusReporter :=
  let failure := match u with
    | .degraded reason => reason
    | .recovered => ""
    | _ => reporter.failure
  { status := (reporter.status.change now u).derive failure, failure }

end StatusReporter

end RunnerYard
