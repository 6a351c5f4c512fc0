import RunnerYard.Pool.Sections

/-!
# What a pool calls

A `Call` is one critical section of the pool or one request to its source, to a host's agent or to the registry. A request is answered at one moment; the section that uses the answer runs at a later one. What a call cannot decide itself is the environment's `Choice`, which may answer anything.

The world also holds what the pool cannot see: the machines that exist and the containers they run, every host ID there ever was, the leases that were launched, and the order in which launches were committed.
-/

namespace RunnerYard

namespace Pool

structure Container where
  slot : Slot
  deadline : Int
  running : Bool := true
  deriving DecidableEq, Repr

/-- What a slot container carries in its labels; its state and its age are the agent's to tell. -/
def Slot.identity (slot : Slot) : Slot := { slot with state := "", createdAt := 0 }

structure Machine where
  host : Host
  up : Bool := true
  bornAt : Int
  containers : Table (fun c : Container => c.slot.index) := .empty
  deriving DecidableEq

namespace Machine

/-- Its containers die with the machine, and stay on its disk. -/
def halt (m : Machine) : Machine :=
  { m with up := false, containers := m.containers.map (fun c => { c with running := false }) fun _ => rfl }

/-- The process in a slot ends; the container stays until it is removed. -/
def exit (slot : Int) (m : Machine) : Machine :=
  { m with
    containers := m.containers.map (fun c => { c with running := c.running && c.slot.index ≠ slot }) fun _ => rfl }

/-- A boot removes every slot container before the host serves again. -/
def boot (m : Machine) : Machine := if m.up then m else { m with up := true, containers := .empty }

theorem boot_host (m : Machine) : m.boot.host = m.host := by
  unfold boot
  split <;> rfl

end Machine

/-- A listing of a host's slots. `begun` counts the launches committed when the agent was asked; the source keeps no such number. -/
structure Listing where
  host : Host
  begun : Nat
  answer : Except Err (List Slot)
  deriving DecidableEq

structure World where
  clock : Int
  pool : Pool
  machines : Table (fun m : Machine => m.host.id)
  used : List String
  leases : List Lease
  commits : List (String × Int × String)
  deriving DecidableEq

inductive Call where
  | now
  | fresh
  | known
  | applyHosts (started : Int) (listed : List Host)
  | hostsIn (filter : HostFilter)
  | order (hosts : List Host)
  | begun
  | applyInfos (results : List (Host × Except Err HostInfo))
  | applySlots (results : List Listing)
  | inventory
  | hostAt (id : String)
  | stoppedHost (id : String)
  | cleared (hostID : String) (slot : Int) (leaseID : String)
  | reserve (leaseID : String)
  | release (hostID : String) (slot : Int)
  | commit (hostID : String) (slot : Int) (started : Slot) (lease : Lease)
  | holdSuspect (hostID : String) (slot : Int) (lease : Lease)
  | markForeign (hostID : String) (slot : Int)
  | refuseHost (hostID reason : String)
  | noteFull
  | timeLeft
  | followDue
  | followed (resolved : Except Err String)
  | replaceStale
  | returnCandidates
  | restorePhase (hostID : String) (previous : Phase)
  | forget (hostID : String)
  | hostStoppedAt (hostID : String)
  | grow
  | startFinished (id : String) (result : Option Err)
  | createFinished (placeholder image : String) (result : Except Err Host)
  | listHosts
  | createHost (image : String)
  | deleteHost (id : String)
  | stopHost (id : String)
  | startHost (id : String)
  | resolve
  | agentInfo (host : Host)
  | agentList (host : Host)
  | agentStart (host : Host) (slot : Int) (request : StartRequest)
  | agentRemove (host : Host) (slot : Int) (leaseID : String)
  deriving DecidableEq

@[reducible] def Call.Ans : Call → Type
  | now => Int
  | fresh => Bool
  | known => Bool
  | hostsIn _ => List Host
  | order _ => List Host
  | begun => Nat
  | inventory => List Worker
  | hostAt _ => Option Host
  | stoppedHost _ => Bool
  | reserve _ => Option (Host × Int × String)
  | commit _ _ _ _ => Worker
  | noteFull => Int
  | timeLeft => Bool
  | followDue => Bool
  | returnCandidates => List Candidate
  | grow => List String × List String × String
  | listHosts => Except Err (List Host)
  | createHost _ => Except Err Host
  | deleteHost _ => Option Err
  | stopHost _ => Option Err
  | startHost _ => Option Err
  | resolve => Except Err String
  | agentInfo _ => Except Err HostInfo
  | agentList _ => Except Err (List Slot)
  | agentStart _ _ _ => Except Err Slot
  | agentRemove _ _ _ => Option Err
  | _ => Unit

/-- The environment's part of a call. A request that fails may have taken effect all the same. -/
inductive Choice where
  | none
  | order (hosts : List Host)
  | timeLeft (left : Bool)
  | hosts (answer : Except Err (List Host))
  | created (answer : Except Err Host) (made : Option Host)
  | done (failure : Option Err) (effect : Bool)
  | image (answer : Except Err String)
  | info (answer : Except Err HostInfo)
  | slots (answer : Except Err (List Slot))
  | started (answer : Except Err Slot) (effect : Bool)
  deriving DecidableEq

namespace World

def locked {α : Type} (w : World) (section_ : Pool → α × Pool) : Option (α × World) :=
  some ((section_ w.pool).1, { w with pool := (section_ w.pool).2 })

def lock (w : World) (section_ : Pool → Pool) : Option (Unit × World) := some ((), { w with pool := section_ w.pool })

def read {α : Type} (w : World) (value : α) : Option (α × World) := some (value, w)

def updateMachine (w : World) (id : String) (f : Machine → Machine) : World :=
  match w.machines.get id with
  | none => w
  | some m => { w with machines := w.machines.put { f m with host := m.host } }

/-- The source makes a machine, under an ID that none ever had. -/
def addMachine (w : World) (host : Host) : Option World :=
  if host.id ∈ w.used then none
  else some { w with machines := w.machines.put { host, bornAt := w.clock }, used := host.id :: w.used }

def removeMachine (w : World) (id : String) : World := { w with machines := w.machines.erase id }

/-- The container an agent starts for a request. -/
def containerOf (clock slot : Int) (request : StartRequest) : Container where
  slot :=
    { index := slot
      controllerID := request.controllerID
      leaseID := request.leaseID
      runnerName := request.runnerName
      runnerID := request.runnerID
      runnerScaleSetID := request.runnerScaleSetID
      state := "started"
      createdAt := clock }
  deadline := request.deadline

/-- A container starts only on a machine that is up, in a slot that holds none. -/
def addContainer (w : World) (hostID : String) (c : Container) : Option World :=
  match w.machines.get hostID with
  | none => none
  | some m =>
    if m.up && (m.containers.get c.slot.index).isNone then
      some (w.updateMachine hostID fun m => { m with containers := m.containers.put c })
    else none

/-- The agent removes a container only if it holds the lease. -/
def removeContainer (w : World) (hostID : String) (slot : Int) (leaseID : String) : World :=
  w.updateMachine hostID fun m => { m with containers := m.containers.filter fun c => ¬(c.slot.index = slot ∧ c.slot.leaseID = leaseID) }

/-- Whether a request took effect: one that succeeded did. -/
def took (failure : Option Err) (effect : Bool) : Bool := failure.isNone || effect

def exec (cfg : Config) : (op : Call) → Choice → World → Option (op.Ans × World)
  | .now, _, w => w.read w.clock
  | .fresh, _, w => w.read (w.pool.fresh cfg w.clock)
  | .known, _, w => w.read w.pool.hostsKnown
  | .applyHosts started listed, _, w => w.lock (applyHosts cfg started w.clock listed)
  | .hostsIn filter, _, w => w.read (w.pool.hostsIn filter)
  | .order hosts, .order answer, w => if answer.isPerm hosts then some (answer, w) else none
  | .begun, _, w => w.read w.commits.length
  | .applyInfos results, _, w => w.lock (applyInfos cfg w.clock results)
  | .applySlots results, _, w => w.lock (applySlots w.clock (results.map fun r => (r.host, r.answer)))
  | .inventory, _, w => w.read (w.pool.inventoryOf cfg w.clock)
  | .hostAt id, _, w => w.read (w.pool.hostAt id)
  | .stoppedHost id, _, w => w.read (w.pool.stoppedHost id)
  | .cleared hostID slot leaseID, _, w => w.lock (cleared w.clock hostID slot leaseID)
  | .reserve leaseID, _, w => w.locked (reserve cfg w.clock leaseID)
  | .release hostID slot, _, w => w.lock (release hostID slot)
  | .commit hostID slot started lease, _, w =>
    (w.locked (commit cfg w.clock hostID slot started lease)).map fun r =>
      (r.1, { r.2 with commits := r.2.commits ++ [(hostID, slot, lease.id)] })
  | .holdSuspect hostID slot lease, _, w => w.lock (holdSuspect cfg w.clock hostID slot lease)
  | .markForeign hostID slot, _, w => w.lock (markForeign hostID slot)
  | .refuseHost hostID reason, _, w => w.lock (refuseHost w.clock hostID reason)
  | .noteFull, _, w => w.locked (noteFull cfg w.clock)
  | .timeLeft, .timeLeft left, w => some (left, w)
  | .followDue, _, w => w.read (decide (¬w.clock < w.pool.imageCheckAt))
  | .followed resolved, _, w => w.lock (followed cfg w.clock resolved)
  | .replaceStale, _, w => w.lock (replaceStale cfg w.clock)
  | .returnCandidates, _, w => w.locked (returnCandidates cfg w.clock)
  | .restorePhase hostID previous, _, w => w.lock (restorePhase hostID previous)
  | .forget hostID, _, w => w.lock fun p => p.forget hostID
  | .hostStoppedAt hostID, _, w => w.lock (hostStoppedAt w.clock hostID)
  | .grow, _, w => w.locked (grow cfg w.clock)
  | .startFinished id result, _, w => w.lock (startFinished w.clock id result)
  | .createFinished key image result, _, w => w.lock (createFinished w.clock key image result)
  | .listHosts, .hosts answer, w => some (answer, w)
  | .createHost _, .created (.ok host) _, w => (w.addMachine host).map fun w => (.ok host, w)
  | .createHost _, .created (.error err) (some host), w => (w.addMachine host).map fun w => (.error err, w)
  | .createHost _, .created (.error err) none, w => some (.error err, w)
  | .deleteHost id, .done failure effect, w => some (failure, if took failure effect then w.removeMachine id else w)
  | .stopHost id, .done failure effect, w => some (failure, if took failure effect then w.updateMachine id Machine.halt else w)
  | .startHost id, .done failure effect, w => some (failure, if took failure effect then w.updateMachine id Machine.boot else w)
  | .resolve, .image answer, w => some (answer, w)
  | .agentInfo _, .info answer, w => some (answer, w)
  | .agentList _, .slots answer, w => some (answer, w)
  | .agentStart host slot request, .started answer true, w =>
    (w.addContainer host.id (containerOf w.clock slot request)).map fun w => (answer, w)
  | .agentStart _ _ _, .started answer false, w => some (answer, w)
  | .agentRemove host slot leaseID, .done failure effect, w =>
    some (failure, if took failure effect then w.removeContainer host.id slot leaseID else w)
  | _, _, _ => none

end World

/-- What happens beside the pool: time passes, a container's process ends, and a machine stops or is started by someone else. -/
inductive EnvChange where
  | pass (duration : Nat)
  | exit (hostID : String) (slot : Int)
  | halt (hostID : String)
  | boot (hostID : String)
  deriving DecidableEq, Repr

def World.change (w : World) : EnvChange → World
  | .pass duration => { w with clock := w.clock + duration }
  | .exit hostID slot => w.updateMachine hostID (Machine.exit slot)
  | .halt hostID => w.updateMachine hostID Machine.halt
  | .boot hostID => w.updateMachine hostID Machine.boot

end Pool

end RunnerYard
