import RunnerYard.Controller.Gate
import RunnerYard.Controller.Journal
import RunnerYard.Controller.State
import RunnerYard.Controller.Status

/-!
# What the scaler calls

The scaler works on objects that lock themselves (the worker state, the ledger, the journal, the launch gate, the status reporter) and on two services (the provider and GitHub). A `Call` is one locked method or one request, and `exec` is its effect on the `World`. What a call cannot decide itself, such as the answer of a service or the outcome of a write, is the environment's `Choice`. A service may answer anything: what is asked of it beyond that stands with each result.

The world also holds what no process can see: the workers that exist at the provider, the registrations GitHub has, the ledger entries the window has passed, and the log of every call with its answer.
-/

namespace RunnerYard

structure RunnerReference where
  id : Int
  name : String
  runnerScaleSetID : Int := 0
  deriving DecidableEq, Repr

structure JitRunnerConfig where
  runner : Option RunnerReference
  encodedJITConfig : String := ""
  deriving DecidableEq, Repr

/-- Where a launch goes: the scaler's compute, the ephemeral scale set's, or the spare room of a pool. -/
inductive Tier where
  | compute
  | ephemeral
  | spare
  deriving DecidableEq, Repr

inductive WorkerFilter where
  | all
  | only (scaleSetID : Int)
  | except (scaleSetID : Int)
  deriving DecidableEq, Repr

def WorkerFilter.accepts : WorkerFilter → Worker → Bool
  | all, _ => true
  | only id, worker => worker.runnerScaleSetID = id
  | except id, worker => worker.runnerScaleSetID ≠ id

inductive StateOp where
  | add (worker : Worker) (busy : Bool)
  | adopt (worker : Worker)
  | get (name : String)
  | all
  | count
  | countScaleSet (id : Int)
  | summary
  | idleByStart (filter : WorkerFilter)
  | markBusy (name : String)
  | markMissing (name : String) (at_ : Int)
  | markPresent (name : String)
  | remove (name : String)
  | markDeparted (record : WorkerRecord) (at_ : Int)
  | markStopped (record : WorkerRecord) (at_ : Int) (awaiting : Bool)
  | markDepartedBusy (name : String)
  | takeOverdue (before : Int)
  | takeDeparted (name : String)
  | pruneDeparted (before : Int)
  deriving DecidableEq, Repr

@[reducible] def StateOp.Ans : StateOp → Type
  | get _ => Option WorkerRecord
  | all => List WorkerRecord
  | count => Nat
  | countScaleSet _ => Nat × Nat
  | summary => Nat × Nat × Nat × Nat
  | idleByStart _ => Nat × Nat × Nat
  | markBusy _ => Bool
  | markMissing _ _ => Bool
  | markDepartedBusy _ => Option Departure
  | takeOverdue _ => List Departure
  | takeDeparted _ => Option Departure
  | _ => Unit

/-- Where an inventory is read. The source passes no such argument; it tells apart the listings of the log. -/
inductive Site where
  | reconcile
  | refresh
  | recover
  | recoverRefresh
  | afterFailedLaunch (leaseID : String) (partialID : Option String)
  | confirmDeletion (workerID : String)
  deriving DecidableEq, Repr

/-- Remarks for the log, without effect. -/
inductive Note where
  | evaluated (workers : List Worker) (now : Int)
  | identityMismatch (leaseID : String)
  deriving DecidableEq, Repr

inductive Call where
  | now
  | reserve (leaseID : String) (now maximum : Int)
  | settleAt (leaseID : String) (stoppedAt now : Int)
  | forfeit (leaseID : String) (now : Int)
  | release (leaseID : String)
  | adopt (leaseID : String) (startedAt : Int)
  | reconcileLeases (activeLeases : List String) (now : Int)
  | snapshot (now : Int)
  | put (entry : RetirementEntry)
  | remove (name : String)
  | retirements
  | retirementCount
  | overdue (now grace : Int)
  | state (op : StateOp)
  | gateOpen
  | capacityAllowance (current target : Int)
  | closeGate (kind : GateKind) (reason : String) (effective hint now : Int)
  | clearGate
  | report (u : StatusUpdate)
  | launch (tier : Tier) (lease : Lease)
  | inventory (site : Site)
  | destroy (workerID : String)
  | spareRoom
  | getRunnerByName (name : String)
  | generateJitRunnerConfig (name : String) (scaleSetID : Int)
  | removeRunner (id : Int)
  | note (note : Note)
  deriving DecidableEq, Repr

@[reducible] def Call.Ans : Call → Type
  | now => Int
  | reserve _ _ _ => Except Err (Bool × Int)
  | settleAt _ _ _ => Option Err
  | forfeit _ _ => Option Err
  | release _ => Option Err
  | adopt _ _ => Option Err
  | reconcileLeases _ _ => Option Err
  | snapshot _ => BudgetStatus
  | put _ => Option Err
  | remove _ => Option Err
  | retirements => List RetirementEntry
  | retirementCount => Nat
  | overdue _ _ => Nat
  | state op => op.Ans
  | gateOpen => Bool
  | capacityAllowance _ _ => Int × Bool
  | closeGate _ _ _ _ _ => Option GateKind × Int
  | clearGate => Option GateKind × Bool
  | report _ => Unit
  | launch _ _ => Except Err Worker
  | inventory _ => Except Err (List Worker)
  | destroy _ => Option Err
  | spareRoom => Int
  | getRunnerByName _ => Except Err (Option RunnerReference)
  | generateJitRunnerConfig _ _ => Except Err (Option JitRunnerConfig)
  | removeRunner _ => Option Err
  | note _ => Unit

/-- What the environment decides: a service's answer, and what it did, such as whether a failed launch created its worker all the same. -/
inductive Choice where
  | none
  | disk (outcome : Disk)
  | order (records : List WorkerRecord)
  | fast (workerIDs : List String)
  | launch (answer : Except Err Worker) (created : Option Worker)
  | inventory (answer : Except Err (List Worker))
  | destroy (answer : Option Err) (gone : Bool)
  | room (free : Int)
  | runner (answer : Except Err (Option RunnerReference))
  | jit (answer : Except Err (Option JitRunnerConfig)) (registered : Option RunnerReference)
  | removed (answer : Option Err) (gone : Bool)

inductive ListenerEvent where
  | desiredRunnerCount (ephemeral : Bool) (assignedJobs : Int)
  | jobStarted (runnerName : String)
  | jobCompleted (runnerName : String) (finishTime : Int)
  deriving DecidableEq, Repr

inductive LogEntry where
  | call (op : Call) (answer : op.Ans)
  | delivered (event : ListenerEvent)
  | booted

structure World where
  clock : Int
  state : WorkerState
  budget : UsageBudget
  budgetFile : List UsageEntry
  archive : List UsageEntry
  journal : RetirementQueue
  gate : LaunchGate
  reporter : StatusReporter
  fleet : List Worker
  registrations : List RunnerReference
  log : List LogEntry

/-- The local effect of a worker-state call. `all` returns the map in any order. -/
def StateOp.exec : (op : StateOp) → Choice → WorkerState → Option (op.Ans × WorkerState)
  | add worker busy, _, s => some ((), s.add worker busy)
  | adopt worker, _, s => some ((), s.adopt worker)
  | get name, _, s => some (s.workers.get name, s)
  | all, .order records, s => if records.Perm s.workers.rows then some (records, s) else none
  | all, _, _ => none
  | count, _, s => some (s.count, s)
  | countScaleSet id, _, s => some (s.countScaleSet id, s)
  | summary, _, s => some (s.summary, s)
  | idleByStart filter, .fast workerIDs, s => some (s.idleByStart filter.accepts workerIDs.contains, s)
  | idleByStart _, _, _ => none
  | markBusy name, _, s => some (s.markBusy name)
  | markMissing name at_, _, s => some (s.markMissing name at_)
  | markPresent name, _, s => some ((), s.markPresent name)
  | remove name, _, s => some ((), s.remove name)
  | markDeparted record at_, _, s => some ((), s.markDeparted record at_)
  | markStopped record at_ awaiting, _, s => some ((), s.markStopped record at_ awaiting)
  | markDepartedBusy name, _, s => some (s.markDepartedBusy name)
  | takeOverdue before, _, s => some (s.takeOverdue before)
  | takeDeparted name, _, s => some (s.takeDeparted name)
  | pruneDeparted before, _, s => some ((), s.pruneDeparted before)

namespace World

def ledger {α : Type} (w : World) (u : LedgerUpdate α) (disk : Disk) : α × World :=
  (u.result, { w with
    budget := u.budget
    budgetFile := u.saved.elim w.budgetFile fun saved => disk.file w.budgetFile saved
    archive := u.dropped ++ w.archive })

def onDisk {α : Type} (f : Disk → α) : Choice → Option α
  | .disk outcome => some (f outcome)
  | _ => none

def effect : (op : Call) → Choice → World → Option (op.Ans × World)
  | .now, _, w => some (w.clock, w)
  | .reserve leaseID now maximum, choice, w =>
    onDisk (fun disk => w.ledger (w.budget.reserve leaseID now maximum disk.failure) disk) choice
  | .settleAt leaseID stoppedAt now, choice, w =>
    onDisk (fun disk => w.ledger (w.budget.settleAt leaseID stoppedAt now disk.failure) disk) choice
  | .forfeit leaseID now, choice, w => onDisk (fun disk => w.ledger (w.budget.forfeit leaseID now disk.failure) disk) choice
  | .release leaseID, choice, w => onDisk (fun disk => w.ledger (w.budget.release leaseID disk.failure) disk) choice
  | .adopt leaseID startedAt, choice, w =>
    onDisk (fun disk => w.ledger (w.budget.adopt leaseID startedAt w.clock disk.failure) disk) choice
  | .reconcileLeases activeLeases now, choice, w =>
    onDisk (fun disk => w.ledger (w.budget.reconcile activeLeases now disk.failure) disk) choice
  | .snapshot now, _, w => some (w.budget.snapshot now, w)
  | .put entry, choice, w =>
    onDisk (fun disk => let (failure, journal) := w.journal.put entry disk; (failure, { w with journal })) choice
  | .remove name, choice, w =>
    onDisk (fun disk => let (failure, journal) := w.journal.remove name disk; (failure, { w with journal })) choice
  | .retirements, _, w => some (w.journal.all, w)
  | .retirementCount, _, w => some (w.journal.count, w)
  | .overdue now grace, _, w => some (w.journal.overdue now grace, w)
  | .state op, choice, w => (op.exec choice w.state).map fun r => (r.1, { w with state := r.2 })
  | .gateOpen, _, w => some (decide (w.gate.reason = ""), w)
  | .capacityAllowance current target, _, w => some (w.gate.capacityAllowance w.clock current target, w)
  | .closeGate kind reason effective hint now, _, w =>
    let gate := w.gate.close kind reason effective hint now
    some ((w.gate.kind, gate.retryAt), { w with gate })
  | .clearGate, _, w => some ((w.gate.kind, decide (w.gate.reason ≠ "")), { w with gate := {} })
  | .report u, _, w => some ((), { w with reporter := w.reporter.update w.clock u })
  | .launch _ _, .launch answer created, w => some (answer, { w with fleet := created.toList ++ w.fleet })
  | .launch _ _, _, _ => none
  | .inventory _, .inventory answer, w => some (answer, w)
  | .inventory _, _, _ => none
  | .destroy workerID, .destroy answer gone, w =>
    some (answer, if gone then { w with fleet := w.fleet.filter fun worker => worker.id ≠ workerID } else w)
  | .destroy _, _, _ => none
  | .spareRoom, .room free, w => some (free, w)
  | .spareRoom, _, _ => none
  | .getRunnerByName _, .runner answer, w => some (answer, w)
  | .getRunnerByName _, _, _ => none
  | .generateJitRunnerConfig _ _, .jit answer registered, w =>
    some (answer, { w with registrations := registered.toList ++ w.registrations })
  | .generateJitRunnerConfig _ _, _, _ => none
  | .removeRunner id, .removed answer gone, w =>
    some (answer, if gone then { w with registrations := w.registrations.filter fun runner => runner.id ≠ id } else w)
  | .removeRunner _, _, _ => none
  | .note _, _, w => some ((), w)

def record (w : World) (entry : LogEntry) : World := { w with log := entry :: w.log }

def exec (op : Call) (choice : Choice) (w : World) : Option (op.Ans × World) :=
  (effect op choice w).map fun r => (r.1, r.2.record (.call op r.1))

end World

/-- What happens without the scaler. A worker that has stopped does not run again. -/
inductive EnvChange where
  | tick (clock : Int)
  | workerState (workerID state : String)
  | vanish (workerID : String)
  | forget (runnerName : String)
  deriving DecidableEq, Repr

def Worker.withState (worker : Worker) (state : String) : Worker :=
  if workerStopped worker.state && !workerStopped state then worker else { worker with state }

def World.change (w : World) : EnvChange → World
  | .tick clock => { w with clock }
  | .workerState workerID state =>
    { w with fleet := w.fleet.map fun worker => if worker.id = workerID then worker.withState state else worker }
  | .vanish workerID => { w with fleet := w.fleet.filter fun worker => worker.id ≠ workerID }
  | .forget runnerName => { w with registrations := w.registrations.filter fun runner => runner.name ≠ runnerName }

end RunnerYard
