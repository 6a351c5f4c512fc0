import RunnerYard.Interaction.Program
import RunnerYard.Pool.World

/-!
# The pool's methods

`Launch`, `Inventory`, `Destroy` and the maintenance loop of `compute.go`, as programs over `Call`. Contexts and time-outs are not modelled: any request may fail at any time. The agent calls of `parallel` are answered one after another, in an order of the environment's choice.
-/

namespace RunnerYard

open Interaction Prog

namespace Pool

abbrev ask (op : Call) : Prog Call.Ans op.Ans := perform op

variable (cfg : Config)

def refreshHosts (force : Bool) : Prog Call.Ans (Option Err) := do
  let fresh ← ask .fresh
  if fresh && !force then
    return none
  else
    let started ← ask .now
    match ← ask .listHosts with
    | .error err => return some err
    | .ok listed =>
      ask (.applyHosts started listed)
      return none

def askAll {α : Type} (request : Host → Prog Call.Ans α) : List Host → Prog Call.Ans (List (Host × α))
  | [] => return []
  | host :: rest => do
    let answer ← request host
    let others ← askAll request rest
    return (host, answer) :: others

def parallel {α : Type} (request : Host → Prog Call.Ans α) (hosts : List Host) : Prog Call.Ans (List (Host × α)) := do
  askAll request (← ask (.order hosts))

def probe : Prog Call.Ans Unit := do
  let booting ← ask (.hostsIn .probe)
  let results ← parallel (fun host => ask (.agentInfo host)) booting
  ask (.applyInfos results)

def listSlots (hosts : List Host) : Prog Call.Ans Unit := do
  let begun ← ask .begun
  let results ← parallel (fun host => ask (.agentList host)) hosts
  ask (.applySlots (results.map fun r => { host := r.1, begun, answer := r.2 }))

def inventory : Prog Call.Ans (Except Err (List Worker)) := do
  let failure ← refreshHosts false
  let known ← ask .known
  match failure, known with
  | some err, false => return .error (.wrap ("pool " ++ cfg.name ++ ": list hosts") err)
  | _, _ =>
    listSlots (← ask (.hostsIn .inventory))
    return .ok (← ask .inventory)

def codeInvalid : String := "invalid"

def codeSlotBusy : String := "slot_busy"

def codeLeaseMismatch : String := "lease_mismatch"

def codeNotReady : String := "not_ready"

def codeDiskFull : String := "disk_full"

def capacityReasonFull : String := "pool_full"

def removeFrom (host : Host) (hostID : String) (slot : Int) (leaseID : String) : Prog Call.Ans (Option Err) := do
  if ← ask (.stoppedHost hostID) then
    ask (.cleared hostID slot leaseID)
    return none
  else
    match ← ask (.agentRemove host slot leaseID) with
    | none =>
      ask (.cleared hostID slot leaseID)
      return none
    | some err =>
      let message := "pool " ++ cfg.name ++ ": remove slot " ++ Text.itoa slot ++ " on " ++ hostID
      if err.isAgentRefusal codeLeaseMismatch then
        ask (.cleared hostID slot leaseID)
        return none
      else if err.isAgentRefusal codeInvalid then
        return some (.wrap message err)
      else
        return some (.transient (.wrap message err))

def destroy (workerID : String) : Prog Call.Ans (Option Err) :=
  match parseWorkerID workerID with
  | none => return some (.text ("invalid pool worker id " ++ Text.quote workerID))
  | some (hostID, slot, leaseID) => do
    match ← ask (.hostAt hostID) with
    | some host => removeFrom cfg host hostID slot leaseID
    | none =>
      match ← refreshHosts true with
      | some err => return some (.transient (.wrap ("pool " ++ cfg.name ++ ": confirm host " ++ hostID) err))
      | none =>
        match ← ask (.hostAt hostID) with
        | some host => removeFrom cfg host hostID slot leaseID
        | none => return none

/-! ### Launches -/

/-- What one listing says of a late start: `none` that it may still come, `some` what is known of it. -/
def lateVerdict (slot : Int) (lease : Lease) : List Slot → Option (Option Slot)
  | [] => none
  | listed :: rest =>
    if listed.index ≠ slot then lateVerdict slot lease rest
    else if listed.controllerID ≠ cfg.controllerID || listed.leaseID ≠ lease.id || listed.runnerName ≠ lease.runnerName then some none
    else if listed.state = "started" then some (some listed)
    else if listed.state = "starting" then lateVerdict slot lease rest
    else some none

/-- How often a slot is read back: every `lateStartPoll` until `lateStartWait` has passed. -/
def lateStartReads : Nat := 15

/-- `readLateStart`. An agent that answered has finished its start, so it is read once. -/
def readLateStart (host : Host) (slot : Int) (lease : Lease) (answered : Bool) : Nat → Prog Call.Ans (Option Slot)
  | 0 => return none
  | reads + 1 => do
    if ← ask .timeLeft then
      let listing ← ask (.agentList host)
      let verdict := match listing with
        | .ok slots => lateVerdict cfg slot lease slots
        | .error _ => none
      match verdict with
      | some result => return result
      | none =>
        if answered then
          return none
        else
          readLateStart host slot lease answered reads
    else
      return none

def startRequest (lease : Lease) (image : String) : StartRequest where
  image := image
  controllerID := cfg.controllerID
  leaseID := lease.id
  runnerName := lease.runnerName
  runnerID := lease.runnerID
  runnerScaleSetID := lease.runnerScaleSetID
  jitConfig := lease.jitConfig
  deadline := lease.deadline
  idleTimeoutSeconds := lease.idleTimeout.tdiv Duration.second

/-- The answer of a full pool, which asks for a host unless the launch is a spare one. -/
def full (grow : Bool) : Prog Call.Ans (Except Err Worker) := do
  let cause := Err.wrap ("pool " ++ cfg.name) .poolFull
  if grow then
    let retryAfter ← ask .noteFull
    return .error (.capacity capacityReasonFull retryAfter cause)
  else
    return .error (.capacity capacityReasonFull 0 cause)

/-- A start that ended without a clear answer: the container may run. -/
def unconfirmed (host : Host) (slot : Int) (lease : Lease) (err : Err) : Prog Call.Ans (Except Err Worker) := do
  match ← readLateStart cfg host slot lease err.asAgentRefused.isSome lateStartReads with
  | some late => return .ok (← ask (.commit host.id slot late lease))
  | none =>
    let now ← ask .now
    let worker := slotWorker host.id slot
      { index := slot, controllerID := cfg.controllerID, state := "starting", createdAt := now } (some lease)
    ask (.holdSuspect host.id slot lease)
    return .error (.partialLaunch worker (.wrap ("start slot " ++ Text.itoa slot ++ " on " ++ host.id) err))

/-- The attempts of `launch`. -/
def attempts (lease : Lease) (grow : Bool) : Nat → Prog Call.Ans (Except Err Worker)
  | 0 => full cfg grow
  | left + 1 => do
    match ← ask (.reserve lease.id) with
    | none => full cfg grow
    | some (host, slot, image) =>
      match ← ask (.agentStart host slot (startRequest cfg lease image)) with
      | .ok started => return .ok (← ask (.commit host.id slot started lease))
      | .error err =>
        if err.isUnreachable then
          ask (.release host.id slot)
          ask (.refuseHost host.id "unreachable")
          attempts lease grow left
        else if err.isAgentRefusal codeSlotBusy then
          ask (.release host.id slot)
          ask (.markForeign host.id slot)
          attempts lease grow left
        else if err.isAgentRefusal codeNotReady || err.isAgentRefusal codeImageMismatch || err.isAgentRefusal codeDiskFull then
          ask (.release host.id slot)
          ask (.refuseHost host.id err.refusalCode)
          attempts lease grow left
        else if err.isAgentRefusal codeInvalid then
          ask (.release host.id slot)
          return .error (.wrap ("pool " ++ cfg.name ++ " host " ++ host.id ++ " rejected the lease") err)
        else
          unconfirmed cfg host slot lease err

/-- `launch`. `launchSpare` is the launch that does not grow. -/
def launch (lease : Lease) (grow : Bool) : Prog Call.Ans (Except Err Worker) :=
  if lease.id = "" || lease.runnerName = "" || lease.jitConfig = "" || '/' ∈ lease.id.toList then
    return .error (.text "pool launch requires a lease ID, a runner name, and a JIT configuration")
  else attempts cfg lease grow maxStartAttempts

/-! ### Maintenance -/

def followTag : Prog Call.Ans Unit := do
  if cfg.follow.isSome then
    if ← ask .followDue then
      let resolved ← ask .resolve
      ask (.followed resolved)

/-- A host that has been silent, or that the pool holds for stopped, is not asked. -/
def Candidate.asked (candidate : Candidate) : Bool :=
  candidate.previous ≠ .stopped && candidate.reason ≠ .bootTimeout && candidate.reason ≠ .unreachable

/-- Any other host may go only if its own listing finds it empty. -/
def confirmEmpty (candidate : Candidate) : Prog Call.Ans Bool := do
  if candidate.asked then
    match ← ask (.agentList candidate.host) with
    | .ok [] => return true
    | _ => return false
  else
    return true

/-- One round of `returnHosts`. -/
def returnHost (candidate : Candidate) : Prog Call.Ans Unit := do
  if ← confirmEmpty candidate then
    if candidate.stop then
      match ← ask (.stopHost candidate.host.id) with
      | some _ => ask (.restorePhase candidate.host.id candidate.previous)
      | none => ask (.hostStoppedAt candidate.host.id)
    else
      match ← ask (.deleteHost candidate.host.id) with
      | some _ => ask (.restorePhase candidate.host.id candidate.previous)
      | none => ask (.forget candidate.host.id)
  else
    ask (.restorePhase candidate.host.id candidate.previous)

def returnAll : List Candidate → Prog Call.Ans Unit
  | [] => return ()
  | candidate :: rest => do
    returnHost candidate
    returnAll rest

def returnHosts : Prog Call.Ans Unit := do
  if cfg.facts.canCreate then
    returnAll (← ask .returnCandidates)

/-- One pass of `Run`. The hosts that `grow` starts and creates are threads of their own. -/
def maintain : Prog Call.Ans Unit := do
  followTag cfg
  let _ ← refreshHosts false
  probe
  listSlots (← ask (.hostsIn .maintain))
  ask .replaceStale
  returnHosts cfg
  if cfg.facts.canCreate then
    let _ ← ask .grow

def create (key image : String) : Prog Call.Ans Unit := do
  let result ← ask (.createHost image)
  ask (.createFinished key image result)

def start (id : String) : Prog Call.Ans Unit := do
  let result ← ask (.startHost id)
  ask (.startFinished id result)

end Pool

end RunnerYard
