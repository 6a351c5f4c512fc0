import RunnerYard.Interaction.Runs
import RunnerYard.Interaction.Threads
import RunnerYard.Pool.Calls

/-!
# A pool over its whole life

The controller calls `Launch`, `Inventory` and `Destroy` at any time and from any number of goroutines, while one goroutine runs the maintenance passes and others create and start hosts. All of them interleave call by call. When the controller restarts, the goroutines are gone and the pool is a new one over the same source and hosts.
-/

namespace RunnerYard

open Interaction Prog

namespace Pool

inductive Job where
  | launch (lease : Lease) (grow : Bool)
  | inventory
  | destroy (workerID : String)
  | maintain
  | create (key image : String)
  | start (id : String)
  deriving DecidableEq, Repr

inductive Outcome where
  | launched (result : Except Err Worker)
  | listed (result : Except Err (List Worker))
  | destroyed (failure : Option Err)
  | done
  deriving DecidableEq

variable (cfg : Config)

def Job.program : Job → Prog Call.Ans Outcome
  | launch lease grow => do return .launched (← Pool.launch cfg lease grow)
  | inventory => do return .listed (← Pool.inventory cfg)
  | destroy workerID => do return .destroyed (← Pool.destroy cfg workerID)
  | maintain => do
    Pool.maintain cfg
    return .done
  | create key image => do
    Pool.create key image
    return .done
  | start id => do
    Pool.start id
    return .done

def Job.calls : Job → Call → Bool
  | launch _ _ => Call.launches
  | inventory => Call.inventories
  | destroy _ => Call.destroys
  | maintain => Call.maintains
  | create _ _ => Call.creates
  | start _ => Call.starts

theorem makes_program (job : Job) : Makes job.calls (job.program cfg) := by
  cases job with
  | launch lease grow => exact (makes_launch cfg lease grow).bind fun _ => all_pure _
  | inventory => exact (makes_inventory cfg).bind fun _ => all_pure _
  | destroy workerID => exact (makes_destroy cfg workerID).bind fun _ => all_pure _
  | maintain => exact makes_maintain.bind fun _ => all_pure _
  | create key image => exact (makes_create key image).bind fun _ => all_pure _
  | start id => exact (makes_start id).bind fun _ => all_pure _

def Call.forks : (op : Call) → op.Ans → List Job
  | .grow, (starts, creates, image) => starts.map Job.start ++ creates.map fun key => Job.create key image
  | _, _ => []

def crew : Crew Call.Ans Job Outcome Choice World where
  program := Job.program cfg
  exec := World.exec cfg
  forks := Call.forks

structure System where
  world : World
  threads : Threads Call.Ans Job Outcome

inductive Label where
  | env (change : EnvChange)
  | restart
  | spawn (job : Job)
  | advance (i : Nat) (choice : Choice)
  deriving DecidableEq

/-- `uuid.NewString` gives every launch a lease ID that nothing has carried before. -/
def World.freshLease (w : World) (leaseID : String) : Bool :=
  w.leases.all (·.id ≠ leaseID) && w.machines.rows.all fun m => m.containers.rows.all (·.slot.leaseID ≠ leaseID)

/-- What the controller may call. `Run` is one loop, so one pass runs at a time. -/
def System.mayCall (s : System) : Job → Bool
  | .launch lease _ => s.world.freshLease lease.id
  | .maintain => s.threads.all (·.1 ≠ .maintain)
  | .inventory | .destroy _ => true
  | .create _ _ | .start _ => false

def World.noting (w : World) : Job → World
  | .launch lease _ => { w with leases := lease :: w.leases }
  | _ => w

theorem pool_change (w : World) (change : EnvChange) : (w.change change).pool = w.pool := by
  have hupdate : ∀ (id : String) (f : Machine → Machine), (w.updateMachine id f).pool = w.pool := by
    intro id f
    unfold World.updateMachine
    split <;> rfl
  cases change with
  | pass duration => rfl
  | exit hostID slot => exact hupdate hostID _
  | halt hostID => exact hupdate hostID _
  | boot hostID => exact hupdate hostID _

theorem pool_noting (w : World) (job : Job) : (w.noting job).pool = w.pool := by
  cases job <;> rfl

/-- A call that returns at once leaves no thread behind. -/
def isCall {α : Type} : Prog Call.Ans α → Bool
  | .pure _ => false
  | .call _ _ => true

def System.step : Label → System → Option System
  | .env change, s => some { s with world := s.world.change change }
  | .restart, s => some { world := { s.world with pool := new cfg }, threads := [] }
  | .spawn job, s =>
    if s.mayCall job then
      some
        { world := s.world.noting job
          threads := if isCall (job.program cfg) then s.threads ++ [(crew cfg).fork job] else s.threads }
    else none
  | .advance i choice, s =>
    ((crew cfg).advance i choice s.threads s.world).map fun r => { world := r.2, threads := r.1 }

inductive System.Stepped (s : System) : Label → System → Prop
  | env (change : EnvChange) : s.Stepped (.env change) { s with world := s.world.change change }
  | restart : s.Stepped .restart { world := { s.world with pool := new cfg }, threads := [] }
  | spawn (job : Job) (hmay : s.mayCall job = true) : s.Stepped (.spawn job)
      { world := s.world.noting job, threads := if isCall (job.program cfg) then s.threads ++ [(crew cfg).fork job] else s.threads }
  | advance (i : Nat) (choice : Choice) {threads : Threads Call.Ans Job Outcome} {world : World}
      (hadvance : (crew cfg).advance i choice s.threads s.world = some (threads, world)) : s.Stepped (.advance i choice) { world, threads }

theorem System.stepped {s s' : System} {label : Label} (hstep : System.step cfg label s = some s') : s.Stepped cfg label s' := by
  cases label with
  | env change =>
    cases hstep
    exact .env change
  | restart =>
    cases hstep
    exact .restart
  | spawn job =>
    simp only [System.step] at hstep
    split at hstep
    · rename_i hmay
      cases hstep
      exact .spawn job hmay
    · cases hstep
  | advance i choice =>
    obtain ⟨⟨threads, world⟩, hadvance, rfl⟩ := Option.map_eq_some_iff.mp hstep
    exact .advance i choice hadvance

def System.made (s : System) : Label → Option (Job × Call × Choice)
  | .advance i choice => (s.threads.pending i).map fun r => (r.1, r.2, choice)
  | _ => none

def System.ended (s : System) : Label → Option (Job × Outcome)
  | .advance i choice => (crew cfg).ended i choice s.threads s.world
  | _ => none

def System.initial (clock : Int) (machines : Table fun m : Machine => m.host.id) : System where
  world :=
    { clock
      pool := new cfg
      machines
      used := machines.rows.map (·.host.id)
      leases := []
      commits := [] }
  threads := []

/-- The step lemma of an outline of the goroutines, for a controller that does not restart. -/
theorem System.crewSafe_step {O : CrewOutline Call.Ans Job Outcome Choice World} (hO : O.Lawful (crew cfg)) {s s' : System} {label : Label}
    (h : O.CrewSafe (crew cfg) s.threads s.world) (hlabel : label ≠ .restart)
    (hallowed : ∀ i choice, label = .advance i choice → ∀ job op, s.threads.pending i = some (job, op) → O.allowed op choice s.world)
    (hbeside : ∀ w', ((∃ change, label = .env change ∧ w' = s.world.change change) ∨ ∃ job, label = .spawn job ∧ w' = s.world.noting job) →
      O.inv w' ∧ (∀ job, O.rely job s.world w') ∧ ∀ k k', O.compat s.world k k' → O.compat w' k k')
    (hspawn : ∀ job, label = .spawn job → s.mayCall job = true →
      (∀ t ∈ s.threads, O.compat (s.world.noting job) t.1 job) ∧ O.ThreadSafe (crew cfg) ((crew cfg).fork job) (s.world.noting job))
    (hstep : System.step cfg label s = some s') : O.CrewSafe (crew cfg) s'.threads s'.world := by
  cases System.stepped cfg hstep with
  | env change =>
    obtain ⟨hinv, hrely, hcompat⟩ := hbeside _ (Or.inl ⟨change, rfl, rfl⟩)
    exact h.env hO hinv hrely hcompat
  | restart => exact absurd rfl hlabel
  | spawn job hmay =>
    obtain ⟨hinv, hrely, hcompat⟩ := hbeside _ (Or.inr ⟨job, rfl, rfl⟩)
    have hnoted := h.env hO hinv hrely hcompat
    dsimp only
    split
    · rename_i hcall
      obtain ⟨hothers, hsafe⟩ := hspawn job rfl hmay
      refine hnoted.spawn hothers ?_ hsafe
      cases hprogram : Job.program cfg job with
      | pure result =>
        rw [hprogram] at hcall
        cases hcall
      | call op next => exact ⟨op, next, hprogram⟩
    · exact hnoted
  | advance i choice hadvance => exact h.advance hO (hallowed i choice rfl) hadvance

/-! ### A small pool, for runs on fixed inputs -/

namespace Demo

def raw : Config where
  name := "small"
  controllerID := "controller"
  image := "runner@sha256:1"
  minHosts := 0
  maxHosts := 2
  facts := { billing := .perSecond, canCreate := true }
  stopper := false
  follow := none
  imageRefresh := 0
  maxLifetime := Duration.hour
  tick := 0
  hostListInterval := 0
  bootTimeout := 0
  unreachableGrace := 0
  idleReturn := 0
  hourMargin := 0
  idleStop := 0
  keepStopped := 0
  deleteStoppedAfter := 0
  speculative := false

def small : Config := raw.withDefaults

def noon : Int := 12 * Duration.hour

def host : Host := { id := "7", address := "10.0.0.7", createdAt := noon - Duration.hour }

def fresh : Host := { id := "8", address := "10.0.0.8", createdAt := noon }

def info : HostInfo := { slots := 2, image := "runner@sha256:1", ready := true }

def machines : Table fun m : Machine => m.host.id := Table.empty.put { host, bornAt := noon - Duration.hour }

def lease (id : String) : Lease :=
  { id, runnerName := "runner-" ++ id, runnerID := 1, runnerScaleSetID := 1, jitConfig := "jit", deadline := noon + Duration.hour, idleTimeout := 0 }

/-- Calls of the only goroutine: before each choice stands the number of calls that need none. -/
def calls (script : List (Nat × Choice)) : List Label :=
  script.flatMap fun (skipped, choice) => List.replicate skipped (.advance 0 .none) ++ [.advance 0 choice]

/-- A maintenance pass up to the moment when hosts are returned. It lists the hosts if they are given. -/
def maintenance (hosts : Option (List Host)) (probes : List (Host × Except Err HostInfo)) (lists : List (Host × Except Err (List Slot))) :
    List Label :=
  .spawn .maintain :: calls ((hosts.toList.map fun hosts => (2, .hosts (.ok hosts))) ++
    (2, .order (probes.map (·.1))) :: probes.map (fun r => (0, .info r.2)) ++
    (3, .order (lists.map (·.1))) :: lists.map (fun r => (0, .slots r.2))) ++ List.replicate 3 (.advance 0 .none)

end Demo

end Pool

end RunnerYard
