import RunnerYard.Controller.World
import RunnerYard.Interaction.Fan

/-!
# The scaler

`scaler.go` and `scale_sets.go`, function by function. Each is a program over `Call`; an error is returned as the source returns it, as a value that may be `none`. Log lines are left out, and so is the cancellation of contexts: the source detaches every cleanup from it.

The launch goroutines of `launchWorkers` are a fan-out. The lease ID a goroutine draws is its key, and what the goroutines share under `mu` is the `LaunchSummary`.
-/

namespace RunnerYard

open Interaction
open Interaction.Prog (forEach lift fanOut)

structure ScaleSetRoute where
  name : String
  id : Int
  minWorkers : Int
  launch : Tier
  deriving DecidableEq, Repr

/-- The configuration a `scaler` holds. `speculator` says that its compute implements `provider.Speculator`. -/
structure Scaler where
  scaleSetName : String
  scaleSetID : Int
  minWorkers : Int
  maxWorkers : Int
  launchConcurrency : Int
  maxLifetime : Int
  idleTimeout : Int
  danglingTimeout : Int
  ephemeral : Option ScaleSetRoute
  speculator : Bool
  deriving DecidableEq, Repr

abbrev Script := Prog Call.Ans

structure LaunchRequest where
  route : ScaleSetRoute
  needed : Nat
  spare : Bool
  deriving DecidableEq, Repr

/-- What the goroutines of `launchWorkers` share. -/
structure LaunchSummary where
  fatal : Option Err := none
  capacityErr : Option Err := none
  rejectedErr : Option Err := none
  stopped : Bool := false
  deriving DecidableEq, Repr

abbrev Handler := Prog (MainAns Call.Ans LaunchRequest LaunchSummary)

def workerTeardownGrace : Int := 15 * Duration.second

def retirementGrace : Int := 15 * Duration.minute

def departureMemory : Int := Duration.hour

def inventoryAbsenceGrace : Int := 30 * Duration.second

def stoppedCompletionGrace : Int := 5 * Duration.minute

def runnerName (leaseID : String) : String := "runner-" ++ leaseID

def workerStoppedAt (finished : Int) : Int := if finished = 0 then 0 else finished + workerTeardownGrace

/-- Older than `limit` at `now`, for a worker whose creation time is known. -/
def Worker.olderThan (worker : Worker) (limit now : Int) : Bool :=
  worker.createdAt ≠ 0 && decide (limit < now - worker.createdAt)

def validateWorkerRetirementProof (worker : Worker) (retirement : RetirementEntry) : Option Err :=
  if worker.runnerName ≠ retirement.runnerName || worker.leaseID ≠ retirement.leaseID then
    some (.text s!"provider worker identity does not match retirement proof for \"{retirement.runnerName}\"")
  else if worker.runnerID ≠ 0 && retirement.runnerID ≠ 0 && worker.runnerID ≠ retirement.runnerID then
    some (.text s!"provider worker registration id does not match retirement proof for \"{retirement.runnerName}\"")
  else if worker.runnerScaleSetID ≠ 0 && worker.runnerScaleSetID ≠ retirement.runnerScaleSetID then
    some (.text s!"provider worker scale set does not match retirement proof for \"{retirement.runnerName}\"")
  else none

/-- The registration carries another name than the entry, or names another scale set. -/
def RunnerReference.unexpected (runner : RunnerReference) (name : String) (scaleSetID : Int) : Bool :=
  runner.name ≠ name || (runner.runnerScaleSetID ≠ 0 && runner.runnerScaleSetID ≠ scaleSetID)

def orphanCandidateCount (workers : List Worker) (local_ : List WorkerRecord) (maximumLifetime now : Int) : Nat :=
  workers.countP fun worker =>
    let present := local_.any (·.worker.id = worker.id)
    let invalid := worker.id = "" || worker.leaseID = "" || worker.runnerName = "" || worker.createdAt = 0
    !present || worker.olderThan maximumLifetime now || invalid

/-! ### Reports -/

def ask (op : Call) : Script op.Ans := Prog.perform op

def time : Script Int := ask .now

def report (u : StatusUpdate) : Script Unit := ask (.report u)

/-- An identity check; one that fails leaves a note in the log. -/
def identityCheck (leaseID : String) (failure : Option Err) : Script (Option Err) :=
  match failure with
  | none => pure none
  | some failure => do
    ask (.note (.identityMismatch leaseID))
    pure (some failure)

def reportWhen (condition : Bool) (u : StatusUpdate) : Script Unit := if condition then report u else pure ()

def reportRetirements : Script Unit := do
  let count ← ask .retirementCount
  let now ← time
  let overdue ← ask (.overdue now retirementGrace)
  report (.retirements count overdue)

/-- `s.reporter.budget(s.budget.snapshot(time.Now()))`. -/
def reportBudget : Script Unit := do
  let now ← time
  let snapshot ← ask (.snapshot now)
  report (.budget snapshot)

namespace Scaler

variable (s : Scaler)

def mainRoute : ScaleSetRoute :=
  { name := s.scaleSetName, id := s.scaleSetID, minWorkers := s.minWorkers, launch := .compute }

def servesScaleSet (id : Int) : Bool := id = s.scaleSetID || s.ephemeral.any (·.id = id)

/-- `routeCounts`: the workers of one scale set and of the whole fleet. -/
def routeCounts (route : ScaleSetRoute) : Script (Nat × Nat) :=
  match s.ephemeral with
  | none => do
    let fleet ← ask (.state .count)
    pure (fleet, fleet)
  | some other => do
    let (ephemeral, fleet) ← ask (.state (.countScaleSet other.id))
    pure (if route.id = other.id then (ephemeral, fleet) else (fleet - ephemeral, fleet))

def routeCount (route : ScaleSetRoute) : Script Nat := do
  let (current, _) ← s.routeCounts route
  pure current

def routeWorker (route : ScaleSetRoute) : WorkerFilter :=
  match s.ephemeral with
  | none => .all
  | some other => if route.id = other.id then .only other.id else .except other.id

def reportScaleSets : Script Unit :=
  match s.ephemeral with
  | none => pure ()
  | some other => do
    let (ephemeral, total) ← ask (.state (.countScaleSet other.id))
    report (.scaleSetWorkers s.scaleSetName (total - ephemeral))
    report (.scaleSetWorkers other.name ephemeral)

def reportState : Script Unit := do
  let (actual, busy, idle, unknown) ← ask (.state .summary)
  report (.workers actual busy idle unknown)
  s.reportScaleSets

/-! ### Retirement -/

/-- A delete request that failed is checked against the inventory: a worker that is gone was deleted. -/
def destroyWorker (worker : Worker) : Script (Option Err) := do
  match ← ask (.destroy worker.id) with
  | none => pure none
  | some deleteErr =>
    match ← ask (.inventory (.confirmDeletion worker.id)) with
    | .error inventoryErr =>
      pure (some (.join deleteErr (.wrap s!"confirm deletion of worker {worker.id}" inventoryErr)))
    | .ok workers => pure (if workers.any (·.id = worker.id) then some deleteErr else none)

/-- Bind the entry to the registration, unless it is bound already. -/
def bindRegistration (retirement bound : RetirementEntry) : Script (Option Err) :=
  if retirement.runnerID = 0 then ask (.put bound) else pure none

/-- `removeRunnerRegistration` once the registration is found to be the entry's: bind its id, then remove it. -/
def removeFoundRegistration (retirement : RetirementEntry) (runner : RunnerReference) : Script (Option Err) := do
  let bound := { retirement with runnerID := if retirement.runnerID = 0 then runner.id else retirement.runnerID }
  match ← bindRegistration retirement bound with
  | some failure => pure (some (.wrap "bind GitHub runner registration before removal" failure))
  | none =>
    let mismatch := if runner.id ≠ bound.runnerID then
        some (Err.text s!"refusing to remove runner \"{runner.name}\" with unexpected registration id {runner.id}")
      else none
    match ← identityCheck retirement.leaseID mismatch with
    | some failure => pure (some failure)
    | none =>
      match ← ask (.removeRunner bound.runnerID) with
      | some failure => pure (some (.wrap s!"remove GitHub runner registration {runner.id}" failure))
      | none => pure none

def removeRunnerRegistration (retirement : RetirementEntry) : Script (Option Err) :=
  if !s.servesScaleSet retirement.runnerScaleSetID then
    pure (some (.text s!"refusing to remove runner from unexpected scale set {retirement.runnerScaleSetID}"))
  else do
    match ← ask (.getRunnerByName retirement.runnerName) with
    | .error failure => pure (some (.wrap "find GitHub runner registration" failure))
    | .ok none => pure none
    | .ok (some runner) =>
      let mismatch := if runner.unexpected retirement.runnerName retirement.runnerScaleSetID then
          some (Err.text s!"refusing to remove runner \"{runner.name}\" from unexpected scale set {runner.runnerScaleSetID}")
        else none
      match ← identityCheck retirement.leaseID mismatch with
      | some failure => pure (some failure)
      | none => removeFoundRegistration retirement runner

/-- The charge for a retired worker, by the disposition of its entry. -/
def chargeRetirement (retirement : RetirementEntry) (now : Int) : Script (Option Err) :=
  match retirement.budgetDisposition with
  | .forfeitReservation => ask (.forfeit retirement.leaseID now)
  | .settleActualUsage => ask (.settleAt retirement.leaseID retirement.stoppedAt now)

/-- The ledger, local state and journal at the end of a retirement. -/
def closeRetirement (retirement : RetirementEntry) : Script (Option Err) := do
  let now ← time
  match ← chargeRetirement retirement now with
  | some failure =>
    report (.degraded "usage_budget_write_failed")
    pure (some failure)
  | none =>
    ask (.state (.remove retirement.runnerName))
    match ← ask (.remove retirement.runnerName) with
    | some failure =>
      report (.degraded "runner_retirement_state_failed")
      pure (some failure)
    | none =>
      reportRetirements
      pure none

/-- The deletion of a worker that the provider has. -/
def destroyPresent (worker : Worker) (providerPresent : Bool) : Script (Option Err) :=
  if providerPresent then destroyWorker worker else pure none

def finishRetirement (worker : Worker) (providerPresent : Bool) (retirement : RetirementEntry) : Script (Option Err) := do
  match ← identityCheck retirement.leaseID (validateWorkerRetirementProof worker retirement) with
  | some failure => pure (some failure)
  | none =>
    match ← destroyPresent worker providerPresent with
    | some failure =>
      report (.degraded "provider_delete_failed")
      pure (some failure)
    | none =>
      match ← s.removeRunnerRegistration retirement with
      | some failure =>
        report (.degraded "github_runner_cleanup_failed")
        pure (some (if failure.isJobStillRunning then .join .retirementDeferred failure else failure))
      | none => closeRetirement retirement

/-- The entry `retireWorker` journals. -/
def retirementOf (worker : Worker) (disposition : BudgetDisposition) (stoppedAt now : Int) : RetirementEntry :=
  { runnerName := worker.runnerName
    runnerID := worker.runnerID
    runnerScaleSetID := if worker.runnerScaleSetID = 0 then s.scaleSetID else worker.runnerScaleSetID
    leaseID := worker.leaseID
    budgetDisposition := disposition
    stoppedAt
    requestedAt := now }

/-- Deferred and transient failures leave the entry pending and are not errors. -/
def keepPending : Option Err → Option Err
  | none => none
  | some failure => if failure.isRetirementDeferred || failure.isTransient then none else some failure

def retireWorker (worker : Worker) (providerPresent : Bool) (disposition : BudgetDisposition) (stoppedAt : Int) :
    Script (Option Err) := do
  let now ← time
  let retirement := s.retirementOf worker disposition stoppedAt now
  match ← ask (.put retirement) with
  | some failure =>
    report (.degraded "runner_retirement_state_failed")
    pure (some failure)
  | none =>
    reportRetirements
    let failure ← s.finishRetirement worker providerPresent retirement
    pure (keepPending failure)

/-- The worker of a pending entry: listed, known to local state, or made up from the entry. -/
def pendingWorker (listed : Option Worker) (retirement : RetirementEntry) : Script Worker :=
  match listed with
  | some worker => pure worker
  | none => do
    match ← ask (.state (.get retirement.runnerName)) with
    | some record => pure record.worker
    | none =>
      pure { leaseID := retirement.leaseID, runnerName := retirement.runnerName, runnerID := retirement.runnerID,
             runnerScaleSetID := retirement.runnerScaleSetID }

/-- One entry of the loop in `finishPendingRetirements`; `workers` is the inventory. -/
def finishPendingRetirement (workers : List Worker) (_ : Unit) (retirement : RetirementEntry) : Script (Unit × Option Err) := do
  let listed := workers.find? (·.runnerName = retirement.runnerName)
  let worker ← pendingWorker listed retirement
  match ← identityCheck retirement.leaseID (validateWorkerRetirementProof worker retirement) with
  | some failure => pure ((), some failure)
  | none =>
    let failure ← s.finishRetirement worker listed.isSome retirement
    pure ((), (keepPending failure).map (.wrap s!"finish pending retirement for {retirement.runnerName}"))

/-- The first runner name that an inventory lists twice. -/
def duplicateName : List Worker → List String → Option String
  | [], _ => none
  | worker :: rest, seen =>
    if seen.contains worker.runnerName then some worker.runnerName else duplicateName rest (worker.runnerName :: seen)

def finishPendingRetirements (workers : List Worker) : Script (Option Err) :=
  match duplicateName workers [] with
  | some name => pure (some (.text s!"provider inventory contains duplicate runner name \"{name}\""))
  | none => do
    let pending ← ask .retirements
    let (_, failure) ← forEach (s.finishPendingRetirement workers) pending ()
    pure failure

/-! ### Launches -/

/-- The provider refused the launch: no worker was created, so the registration goes and the reservation is released. -/
def cleanupRejectedLaunch (retirement : RetirementEntry) : Script (Option Err) := do
  match ← s.removeRunnerRegistration retirement with
  | some failure =>
    report (.degraded "github_runner_cleanup_failed")
    pure (some failure)
  | none =>
    match ← ask (.release retirement.leaseID) with
    | some failure =>
      report (.degraded "usage_budget_write_failed")
      pure (some failure)
    | none =>
      match ← ask (.remove retirement.runnerName) with
      | some failure =>
        report (.degraded "runner_retirement_state_failed")
        pure (some failure)
      | none =>
        reportRetirements
        pure none

/-- The worker of a registration that has none at the provider. -/
def workerOf (retirement : RetirementEntry) : Worker :=
  { leaseID := retirement.leaseID, runnerName := retirement.runnerName }

def cleanupJITGenerationFailure (retirement : RetirementEntry) (generationErr : Err) : Script Err := do
  match ← ask (.getRunnerByName retirement.runnerName) with
  | .error failure => pure (.join generationErr (.wrap "resolve ambiguous JIT generation" failure))
  | .ok none =>
    match ← ask (.remove retirement.runnerName) with
    | some failure => pure (.join generationErr failure)
    | none =>
      reportRetirements
      pure (generationErr.joinOption (← ask (.release retirement.leaseID)))
  | .ok (some runner) =>
    let mismatch := if runner.unexpected retirement.runnerName retirement.runnerScaleSetID then
        some (Err.text "ambiguous JIT generation returned an unexpected runner identity")
      else none
    match ← identityCheck retirement.leaseID mismatch with
    | some failure => pure (.join generationErr failure)
    | none =>
      let retirement := { retirement with runnerID := runner.id }
      match ← ask (.put retirement) with
      | some failure => pure (.join generationErr failure)
      | none => pure (generationErr.joinOption (← s.finishRetirement (workerOf retirement) false retirement))

/-- The loop of `cleanupAmbiguousLaunch` over the inventory; the accumulator says whether a worker was cleaned up. -/
def cleanupListedWorker (retirement : RetirementEntry) (launchErr : Err) (partialWorker : Option Worker) (cleaned : Bool)
    (worker : Worker) : Script (Bool × Option Err) :=
  if worker.leaseID ≠ retirement.leaseID || partialWorker.any (·.id = worker.id) then pure (cleaned, none)
  else do
    match ← s.retireWorker worker true .forfeitReservation 0 with
    | some failure => pure (cleaned, some (.join launchErr (.wrap s!"clean up ambiguous worker {worker.id}" failure)))
    | none => pure (true, none)

/-- `cleanupAmbiguousLaunch` after the worker of a partial launch has been dealt with. -/
def cleanupListedWorkers (retirement : RetirementEntry) (launchErr : Err) (partialWorker : Option Worker) :
    Script (Option Err) := do
  match ← ask (.inventory (.afterFailedLaunch retirement.leaseID (partialWorker.map (·.id)))) with
  | .error failure => pure (some (.join launchErr (.wrap "inventory after ambiguous launch" failure)))
  | .ok workers =>
    match ← forEach (s.cleanupListedWorker retirement launchErr partialWorker) workers false with
    | (_, some failure) => pure (some failure)
    | (true, none) => pure none
    | (false, none) =>
      match ← s.finishRetirement (workerOf retirement) false retirement with
      | some failure =>
        pure (some (.join launchErr (.wrap s!"clean up ambiguous runner registration {retirement.runnerName}" failure)))
      | none => pure none

/-- The worker that a partial launch names. -/
def cleanupPartialWorker (launchErr : Err) : Script (Option Err) :=
  match launchErr.asPartialLaunch.filter (·.id ≠ "") with
  | some worker => do
    match ← s.retireWorker worker true .forfeitReservation 0 with
    | some failure => pure (some (.join launchErr (.wrap s!"clean up partial worker {worker.id}" failure)))
    | none => pure none
  | none => pure none

def cleanupAmbiguousLaunch (retirement : RetirementEntry) (launchErr : Err) : Script (Option Err) := do
  match ← s.cleanupPartialWorker launchErr with
  | some failure => pure (some failure)
  | none => s.cleanupListedWorkers retirement launchErr launchErr.asPartialLaunch

/-- `startWorker` once the provider has answered the launch with an error. -/
def failedLaunch (retirement : RetirementEntry) (launchErr : Err) : Script (Bool × Option Err) :=
  if launchErr.isCapacity then do
    match ← s.cleanupRejectedLaunch retirement with
    | some failure => pure (false, some (.wrap "clean up capacity-rejected launch" failure))
    | none =>
      reportBudget
      pure (false, some launchErr)
  else do
    let classified := launchErr.classifyLaunchFailure
    reportWhen classified.asLaunchRejected.isNone (.degraded "provider_launch_failed")
    match ← s.cleanupAmbiguousLaunch retirement launchErr with
    | some failure => pure (false, some failure)
    | none =>
      reportBudget
      pure (false, some classified)

/-- `startWorker` once the provider has answered the launch with a worker. -/
def commitLaunch (retirement : RetirementEntry) (worker : Worker) : Script (Bool × Option Err) := do
  let worker := { worker with
    runnerID := if worker.runnerID = 0 then retirement.runnerID else worker.runnerID
    runnerScaleSetID := if worker.runnerScaleSetID = 0 then retirement.runnerScaleSetID else worker.runnerScaleSetID }
  match ← ask (.adopt retirement.leaseID worker.createdAt) with
  | some failure =>
    report (.degraded "usage_budget_write_failed")
    let cleanupErr ← s.retireWorker worker true .forfeitReservation 0
    reportBudget
    pure (false, some ((Err.wrap "confirm launched worker in runner usage budget" failure).joinOption cleanupErr))
  | none =>
    ask (.state (.add worker false))
    match ← ask (.remove retirement.runnerName) with
    | some failure =>
      report (.degraded "runner_retirement_state_failed")
      pure (false, some (.wrap "commit launched runner state" failure))
    | none =>
      reportRetirements
      s.reportState
      reportBudget
      report .recovered
      pure (true, none)

/-- `startWorker` from the provider's launch on. -/
def launchWorker (tier : Tier) (retirement : RetirementEntry) (jit : JitRunnerConfig) : Script (Bool × Option Err) := do
  report (.starting 1)
  let now ← time
  let answer ← ask (.launch tier
    { id := retirement.leaseID, runnerName := retirement.runnerName, runnerID := retirement.runnerID,
      runnerScaleSetID := retirement.runnerScaleSetID, jitConfig := jit.encodedJITConfig,
      deadline := now + (s.maxLifetime - 30 * Duration.second), idleTimeout := s.idleTimeout })
  report (.starting (-1))
  match answer with
  | .error launchErr => s.failedLaunch retirement launchErr
  | .ok worker => s.commitLaunch retirement worker

/-- The registration in GitHub's answer, or the one found under the name when the answer names none. -/
def resolveRegistration (name : String) (jit : JitRunnerConfig) : Script (Except Err (Option RunnerReference)) :=
  match jit.runner.filter (1 ≤ ·.id) with
  | some runner => pure (.ok (some runner))
  | none => ask (.getRunnerByName name)

/-- `startWorker` from the registration of the runner on; the entry is journaled. -/
def registerWorker (tier : Tier) (retirement : RetirementEntry) : Script (Bool × Option Err) := do
  match ← ask (.generateJitRunnerConfig retirement.runnerName retirement.runnerScaleSetID) with
  | .error failure => pure (false, some (← s.cleanupJITGenerationFailure retirement failure))
  | .ok none =>
    pure (false, some (← s.cleanupJITGenerationFailure retirement (.text "GitHub returned an empty JIT runner response")))
  | .ok (some jit) =>
    match ← resolveRegistration retirement.runnerName jit with
    | .error failure => pure (false, some (.wrap "resolve generated runner registration" failure))
    | .ok registration =>
      let valid := registration.filter fun runner =>
        decide (1 ≤ runner.id) && !runner.unexpected retirement.runnerName retirement.runnerScaleSetID
      match valid with
      | none => do
        ask (.note (.identityMismatch retirement.leaseID))
        pure (false, some (.text s!"GitHub returned invalid identity for generated runner \"{retirement.runnerName}\""))
      | some runner =>
        let retirement := { retirement with runnerID := runner.id }
        match ← ask (.put retirement) with
        | some failure =>
          report (.degraded "runner_retirement_state_failed")
          pure (false, some (.wrap "bind generated runner registration" failure))
        | none => s.launchWorker tier retirement jit

def launchIntent (route : ScaleSetRoute) (leaseID : String) (now : Int) : RetirementEntry :=
  { runnerName := runnerName leaseID, runnerScaleSetID := route.id, leaseID, budgetDisposition := .forfeitReservation,
    requestedAt := now }

/-- `startWorker` once the lease is admitted to the ledger. -/
def admittedWorker (route : ScaleSetRoute) (tier : Tier) (leaseID : String) : Script (Bool × Option Err) := do
  match ← ask (.getRunnerByName (runnerName leaseID)) with
  | .error failure =>
    let budgetErr ← ask (.release leaseID)
    pure (false, some ((Err.wrap "preflight runner registration" failure).joinOption budgetErr))
  | .ok (some _) =>
    let budgetErr ← ask (.release leaseID)
    pure (false, some ((Err.text s!"generated runner name \"{runnerName leaseID}\" already exists").joinOption budgetErr))
  | .ok none =>
    let now ← time
    let retirement := launchIntent route leaseID now
    match ← ask (.put retirement) with
    | some failure =>
      report (.degraded "runner_retirement_state_failed")
      let now ← time
      let budgetErr ← ask (.forfeit leaseID now)
      pure (false, some ((Err.wrap "journal runner registration intent" failure).joinOption budgetErr))
    | none =>
      reportRetirements
      s.registerWorker tier retirement

/-- `startWorker` with the lease ID it has drawn. It says whether a worker was started; a lease the ledger refuses is no error. -/
def startWorker (route : ScaleSetRoute) (spare : Bool) (leaseID : String) : Script (Bool × Option Err) := do
  let tier := if spare then .spare else route.launch
  let now ← time
  match ← ask (.reserve leaseID now s.maxLifetime) with
  | .error failure =>
    report (.degraded "usage_budget_write_failed")
    pure (false, some (.wrap "reserve runner usage budget" failure))
  | .ok (allowed, _) =>
    reportBudget
    if allowed then s.admittedWorker route tier leaseID else pure (false, none)

end Scaler

namespace LaunchSummary

/-- What a goroutine of `launchWorkers` does with the result of `startWorker`. -/
def absorb (sum : LaunchSummary) : Bool × Option Err → LaunchSummary
  | (started, none) => if started then sum else { sum with stopped := true }
  | (_, some failure) =>
    if failure.isCapacity then { sum with stopped := true, capacityErr := sum.capacityErr <|> some failure }
    else if failure.isTransient then { sum with stopped := true }
    else if failure.asLaunchRejected.isSome then { sum with stopped := true, rejectedErr := sum.rejectedErr <|> some failure }
    else { sum with stopped := true, fatal := sum.fatal <|> some failure }

end LaunchSummary

namespace Scaler

variable (s : Scaler)

def fan : Fan Call.Ans LaunchRequest String (Bool × Option Err) LaunchSummary where
  thread request leaseID := s.startWorker request.route request.spare leaseID
  count request := request.needed
  limit _ := (max 1 s.launchConcurrency).toNat
  start := {}
  absorb := LaunchSummary.absorb
  stopped := LaunchSummary.stopped

def recovered : GateKind → StatusUpdate
  | .launch => .launchRecovered
  | .capacity => .capacityRecovered

def rejected (reason : String) (effective : Nat) (retryAt : Int) : GateKind → StatusUpdate
  | .launch => .launchRejected reason retryAt
  | .capacity => .capacityRejected effective reason retryAt

def releaseGateStatus (kind : GateKind) : Script Unit := report (recovered kind)

def recordLaunchGate (kind : GateKind) (reason : String) (failure : Err) : Script Unit := do
  let now ← time
  let effective ← ask (.state .count)
  let (previousKind, retryAt) ← ask (.closeGate kind reason effective failure.capacityRetryAfter now)
  reportWhen (previousKind.any (· ≠ kind)) (recovered (previousKind.getD kind))
  report (rejected reason effective retryAt kind)

def clearLaunchGate : Script Unit := do
  let (kind, hadRejection) ← ask .clearGate
  if hadRejection then releaseGateStatus (kind.getD .capacity) else pure ()

/-- The end of `launchWorkers`, when every goroutine has finished. -/
def recordLaunches (spare : Bool) (sum : LaunchSummary) : Script Unit :=
  match sum.capacityErr with
  | some failure => if spare then pure () else recordLaunchGate .capacity failure.capacityReason failure
  | none =>
    match sum.rejectedErr with
    | some failure => recordLaunchGate .launch failure.launchRejectionReason failure
    | none => pure ()

def launchWorkers (route : ScaleSetRoute) (needed : Nat) (spare : Bool) : Handler (Option Err) := do
  let sum ← fanOut { route, needed, spare }
  lift (recordLaunches spare sum)
  pure sum.fatal

/-! ### Reconciliation -/

/-- `logStopped`, which also remembers a known worker that stopped. -/
def logStopped (worker : Worker) (known : Option WorkerRecord) (now : Int) : Script Unit :=
  let age := if worker.createdAt = 0 then 0 else Duration.roundSeconds (now - worker.createdAt)
  let word := normalizedState worker.state
  match known with
  | none => pure ()
  | some record =>
    if word ≠ "stopped".toList ∧ word ≠ "off".toList then pure ()
    else if !record.observed then ask (.state (.markStopped record now false))
    else if !record.busy && decide (0 < s.idleTimeout) && decide (s.idleTimeout ≤ age) then
      ask (.state (.markStopped record now false))
    else ask (.state (.markStopped record now true))

/-- What a pass over the inventory has seen: the worker IDs that are present, and the runner names it retired. -/
structure Seen where
  present : List String := []
  retired : List String := []
  deriving DecidableEq, Repr

/-- Retire a worker of the inventory, for the reason in `what`. -/
def retireListed (seen : Seen) (worker : Worker) (what : Err → Err) (after : Script Unit) : Script (Seen × Option Err) := do
  match ← s.retireWorker worker true .settleActualUsage 0 with
  | some failure => pure (seen, some (what failure))
  | none =>
    after
    pure ({ seen with retired := worker.runnerName :: seen.retired }, none)

/-- A worker of the inventory that stays: known to local state, or adopted. -/
def keepListed (records : List WorkerRecord) (seen : Seen) (worker : Worker) : Script (Seen × Option Err) := do
  let seen := { seen with present := worker.id :: seen.present }
  match records.reverse.find? (·.worker.id = worker.id) with
  | some record =>
    ask (.state (.markPresent record.name))
    pure (seen, none)
  | none =>
    match ← ask (.adopt worker.leaseID worker.createdAt) with
    | some failure =>
      report (.degraded "usage_budget_write_failed")
      pure (seen, some (.wrap s!"adopt runner usage budget for {worker.runnerName}" failure))
    | none =>
      ask (.state (.adopt worker))
      pure (seen, none)

/-- The loop of `reconcile` over the inventory; `records` is local state when the pass began. -/
def reconcileListed (records : List WorkerRecord) (seen : Seen) (worker : Worker) : Script (Seen × Option Err) := do
  let known := records.find? (·.name = worker.runnerName)
  let now ← time
  if worker.olderThan s.maxLifetime now then
    s.retireListed seen worker (.wrap s!"retire worker {worker.runnerName} after maximum lifetime") (pure ())
  else if workerStopped worker.state then
    s.retireListed seen worker (.wrap s!"retire stopped worker {worker.runnerName}") do
      let now ← time
      s.logStopped worker (known.filter (·.worker.id = worker.id)) now
  else
    let now ← time
    if (known.any fun record => record.observed && !record.busy) && decide (0 < s.danglingTimeout) &&
        worker.olderThan s.danglingTimeout now then
      s.retireListed seen worker (.wrap s!"retire dangling worker {worker.runnerName}") (pure ())
    else keepListed records seen worker

/-- A worker of local state that the inventory does not list, and that is too old to wait for. -/
def absentTooOld (record : WorkerRecord) (now : Int) : Bool :=
  let age := if record.worker.createdAt = 0 then 0 else now - record.worker.createdAt
  (decide (0 < s.maxLifetime) && decide (s.maxLifetime < age)) ||
    (decide (0 < s.danglingTimeout) && record.observed && !record.busy && decide (s.danglingTimeout < age))

/-- The retirement of a worker that left the inventory. -/
def retireAbsent (record : WorkerRecord) (now : Int) : Script (Unit × Option Err) := do
  match ← s.retireWorker record.worker false .settleActualUsage 0 with
  | some failure => pure ((), some (.wrap s!"retire disappeared worker {record.name}" failure))
  | none =>
    ask (.state (.markDeparted record now))
    pure ((), none)

/-- The loop of `reconcile` over local state as it was when the pass began. -/
def reconcileAbsent (seen : Seen) (now : Int) (_ : Unit) (record : WorkerRecord) : Script (Unit × Option Err) :=
  if seen.retired.contains record.name || seen.present.contains record.worker.id then pure ((), none)
  else if s.absentTooOld record now then s.retireAbsent record now
  else if record.missingSince = 0 then do
    let _ ← ask (.state (.markMissing record.name now))
    pure ((), none)
  else if now - record.missingSince < inventoryAbsenceGrace then pure ((), none)
  else s.retireAbsent record now

/-- `reconcile` from the inventory it compares with local state on. -/
def reconcileWith (workers : List Worker) : Script (Option Err) := do
  let records ← ask (.state .all)
  let now ← time
  report (.orphans (orphanCandidateCount workers records s.maxLifetime now))
  match ← forEach (s.reconcileListed records) workers {} with
  | (_, some failure) => pure (some failure)
  | (seen, none) =>
    let now ← time
    ask (.note (.evaluated workers now))
    ask (.state (.pruneDeparted (now - departureMemory)))
    let _ ← ask (.state (.takeOverdue (now - stoppedCompletionGrace)))
    match ← forEach (s.reconcileAbsent seen now) records () with
    | (_, some failure) => pure (some failure)
    | (_, none) =>
      report (.orphans 0)
      s.reportState
      reportBudget
      report .recovered
      pure none

def reconcile : Script (Option Err) := do
  match ← ask (.inventory .reconcile) with
  | .error failure =>
    report (.degraded "provider_inventory_failed")
    pure (some (.wrap "inventory compute workers" failure))
  | .ok workers =>
    if 0 < (← ask .retirementCount) then
      match ← s.finishPendingRetirements workers with
      | some failure =>
        report (.degraded "runner_retirement_failed")
        pure (some failure)
      | none =>
        match ← ask (.inventory .refresh) with
        | .error failure =>
          report (.degraded "provider_inventory_failed")
          pure (some (.wrap "refresh inventory after runner retirement" failure))
        | .ok workers => s.reconcileWith workers
    else s.reconcileWith workers

/-- The loop of `recover` over the inventory. -/
def recoverListed (leases : List String) (worker : Worker) : Script (List String × Option Err) := do
  match ← ask (.adopt worker.leaseID worker.createdAt) with
  | some failure =>
    report (.degraded "usage_budget_write_failed")
    pure (leases, some failure)
  | none =>
    ask (.state (.adopt worker))
    pure (worker.leaseID :: leases, none)

def recoverWith (workers : List Worker) : Script (Option Err) := do
  report (.orphans workers.length)
  match ← forEach recoverListed workers [] with
  | (_, some failure) => pure (some failure)
  | (activeLeases, none) =>
    let now ← time
    match ← ask (.reconcileLeases activeLeases now) with
    | some failure =>
      report (.degraded "usage_budget_write_failed")
      pure (some (.wrap "reconcile runner usage budget" failure))
    | none =>
      report (.orphans 0)
      s.reportState
      reportBudget
      pure none

def recover : Script (Option Err) := do
  match ← ask (.inventory .recover) with
  | .error failure =>
    report (.degraded "provider_inventory_failed")
    pure (some failure)
  | .ok workers =>
    match ← s.finishPendingRetirements workers with
    | some failure =>
      report (.degraded "runner_retirement_failed")
      pure (some failure)
    | none =>
      match ← ask (.inventory .recoverRefresh) with
      | .error failure =>
        report (.degraded "provider_inventory_failed")
        pure (some (.wrap "refresh inventory after recovering runner retirements" failure))
      | .ok workers => s.recoverWith workers

/-! ### Handlers -/

/-- The number of speculative runners `speculate` starts. -/
def speculativeCount (assignedJobs room : Int) (busy fastIdle slowIdle fleet : Nat) : Int :=
  let waiting := max 0 (assignedJobs - busy)
  min (min (waiting - fastIdle) slowIdle) (min room (s.maxWorkers - fleet))

def speculate (route : ScaleSetRoute) (assignedJobs : Int) : Handler (Option Err) :=
  if !s.speculator then pure none
  else do
    if !(← lift (ask .gateOpen)) then pure none
    else
      let room ← lift (ask .spareRoom)
      if room < 1 then pure none
      else
        let (busy, fastIdle, slowIdle) ← lift (ask (.state (.idleByStart (s.routeWorker route))))
        let fleet ← lift (ask (.state .count))
        let count := s.speculativeCount assignedJobs room busy fastIdle slowIdle fleet
        if count < 1 then pure none
        else launchWorkers route count.toNat true

/-- A probe that started a worker opens the gate again. -/
def afterProbe (probing : Bool) (fleet : Nat) : Script Unit :=
  if probing then do
    let count ← ask (.state .count)
    if fleet < count then clearLaunchGate else pure ()
  else pure ()

/-- The part of `handleDesiredRunnerCount` that launches missing workers. -/
def scaleUp (route : ScaleSetRoute) (target : Int) : Handler (Option Err) := do
  let (current, fleet) ← lift (s.routeCounts route)
  if target ≤ current then pure none
  else
    let (needed, probing) ← lift (ask (.capacityAllowance fleet (min s.maxWorkers (fleet + target - current))))
    if needed ≤ 0 then pure none
    else
      match ← launchWorkers route needed.toNat false with
      | some failure => pure (some failure)
      | none =>
        lift (afterProbe probing fleet)
        pure none

/-- `handleDesiredRunnerCount`; the worker count it also returns is left to the caller, who publishes it to GitHub. -/
def handleDesiredRunnerCount (route : ScaleSetRoute) (assignedJobs : Int) : Handler (Option Err) := do
  let target := min s.maxWorkers (route.minWorkers + assignedJobs)
  lift (report (.desired route.name assignedJobs target))
  match ← lift s.reconcile with
  | some failure => pure (if failure.isTransient then none else some failure)
  | none =>
    match ← s.scaleUp route target with
    | some failure => pure (some failure)
    | none => if route.id = s.scaleSetID then s.speculate route assignedJobs else pure none

def handleJobStarted (name : String) : Script (Option Err) := do
  report (.githubActivity "job_started")
  if ← ask (.state (.markBusy name)) then
    s.reportState
    pure none
  else
    let _ ← ask (.state (.markDepartedBusy name))
    pure none

def handleJobCompleted (name : String) (finishTime : Int) : Script (Option Err) := do
  report (.githubActivity "job_completed")
  let _ ← ask (.state (.takeDeparted name))
  match ← ask (.state (.get name)) with
  | none => pure none
  | some record =>
    match ← s.retireWorker record.worker true .settleActualUsage (workerStoppedAt finishTime) with
    | some failure => pure (some (.wrap s!"retire completed worker {name}" failure))
    | none =>
      s.reportState
      reportBudget
      report .recovered
      pure none

/-- The handler of a listener event, with the mark `failClosed` puts on its error. -/
def handle : ListenerEvent → Handler (Option Err)
  | .desiredRunnerCount ephemeral assignedJobs => do
    let route := if ephemeral then s.ephemeral.getD s.mainRoute else s.mainRoute
    pure (Err.failClosed (← s.handleDesiredRunnerCount route assignedJobs))
  | .jobStarted name => do pure (Err.failClosed (← lift (s.handleJobStarted name)))
  | .jobCompleted name finishTime => do pure (Err.failClosed (← lift (s.handleJobCompleted name finishTime)))

end Scaler

end RunnerYard
