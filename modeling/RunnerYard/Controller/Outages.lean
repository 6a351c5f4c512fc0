import RunnerYard.Base.Text
import RunnerYard.Controller.Scaler
import RunnerYard.Provider.Retry

/-!
# When the provider does not answer

A request that fails on its way, followed from `http.Client.Do` through the retries and `Inventory` of the Fly adapter to the decision of the scaler: a transient failure costs it one cycle, any other one ends the controller.
-/

namespace RunnerYard

open Interaction

namespace Fly

open Provider

def managedByKey : String := "runneryard-managed-by"

def controllerIDKey : String := "runneryard-controller"

def leaseIDKey : String := "runneryard-lease-id"

def runnerNameKey : String := "runneryard-runner-name"

def runnerIDKey : String := "runneryard-runner-id"

def runnerScaleSetIDKey : String := "runneryard-runner-scale-set-id"

/-- A Machine, as far as the adapter reads it. -/
structure Machine where
  id : String
  state : String
  createdAt : Int
  metadata : List (String × String)
  deriving DecidableEq, Repr

/-- A map lookup: a missing key reads as the empty text. -/
def Machine.label (item : Machine) (key : String) : String := (item.metadata.lookup key).getD ""

def toWorker (item : Machine) : Worker where
  id := item.id
  leaseID := item.label leaseIDKey
  runnerName := item.label runnerNameKey
  runnerID := (Text.parseInt (item.label runnerIDKey)).1
  runnerScaleSetID := (Text.parseInt (item.label runnerScaleSetIDKey)).1
  state := item.state
  createdAt := item.createdAt

/-- How an exchange with the API ends: `http.Client.Do` fails, or there is a response, from which the adapter reads the value or the error of its status. -/
inductive Exchange (α : Type) where
  | failed (e : TransportError)
  | answered (outcome : Except Err α)

def doJSON {α : Type} : Exchange α → Except Err α
  | .failed e => .error (classifyRequestError e)
  | .answered outcome => outcome

/-- `Inventory`, with the number of requests it has sent. -/
def inventory (controllerID : String) (policyAttempts : Int) (requests : Nat → Exchange (List Machine)) : Nat × Except Err (List Worker) :=
  let listed := retryDo policyAttempts fun n => { operation := doJSON (requests n) }
  (listed.1, match listed.2 with
    | .error failure => .error (.wrap "list Fly Machines" failure)
    | .ok machines =>
      .ok ((machines.filter fun item => item.label managedByKey = "true" ∧ item.label controllerIDKey = controllerID).map toWorker))

end Fly

namespace Scaler

/-- The handler begins with an inventory. If that fails it notes so and returns, without an error exactly if the failure is transient. -/
def SkipsOn (s : Scaler) (ephemeral : Bool) (assignedJobs : Int) (failure : Err) (result : Option Err) : Prop :=
  ∃ target name next, s.handle (.desiredRunnerCount ephemeral assignedJobs) =
      .call (.inl (.report (.desired name assignedJobs target))) (fun _ => .call (.inl (.inventory .reconcile)) next) ∧
    next (.error failure) = .call (.inl (.report (.degraded "provider_inventory_failed"))) fun _ => .pure result

theorem skipsOn_failed_inventory (s : Scaler) (ephemeral : Bool) (assignedJobs : Int) (failure : Err) :
    s.SkipsOn ephemeral assignedJobs failure
      (Err.failClosed (if failure.isTransient then none else some (.wrap "inventory compute workers" failure))) :=
  ⟨_, _, _, rfl, rfl⟩

theorem skipsOn_transient (s : Scaler) (ephemeral : Bool) (assignedJobs : Int) {failure : Err} (h : failure.isTransient = true) :
    s.SkipsOn ephemeral assignedJobs failure none := by
  have hskips := s.skipsOn_failed_inventory ephemeral assignedJobs failure
  rw [if_pos h] at hskips
  exact hskips

theorem skipsOn_permanent (s : Scaler) (ephemeral : Bool) (assignedJobs : Int) {failure : Err} (h : failure.isTransient = false) :
    ∃ fatal, fatal.isHandlerFailure = true ∧ s.SkipsOn ephemeral assignedJobs failure (some fatal) := by
  have hskips := s.skipsOn_failed_inventory ephemeral assignedJobs failure
  rw [if_neg (by simp [h])] at hskips
  obtain ⟨fatal, hfatal⟩ : ∃ fatal, Err.failClosed (some (.wrap "inventory compute workers" failure)) = some fatal := by
    unfold Err.failClosed
    dsimp only
    split <;> exact ⟨_, rfl⟩
  exact ⟨fatal, Err.isHandlerFailure_failClosed hfatal, hfatal ▸ hskips⟩

end Scaler

def Fly.unreachable (op address : String) (causes : Nat → Provider.TransportError) (n : Nat) : Fly.Exchange (List Fly.Machine) :=
  .failed (.url op address (causes n))

/-- A failure of `http.Client.Do` is transient exactly if it matches no error of a context. A transient one is retried and then costs the scaler this cycle; any other ends the controller. -/
theorem outage_costs_a_cycle_iff (s : Scaler) (ephemeral : Bool) (assignedJobs : Int) (controllerID : String) (policyAttempts : Int) (op address : String)
    (causes : Nat → Provider.TransportError) :
    (∀ n, (Provider.classifyRequestError (.url op address (causes n))).isTransient = true ↔ (causes n).Recoverable) ∧
    ((∀ n, (causes n).Recoverable) → ∃ failure,
      Fly.inventory controllerID policyAttempts (Fly.unreachable op address causes) = (Provider.effectiveAttempts policyAttempts, .error failure) ∧
      failure.isTransient = true ∧ s.SkipsOn ephemeral assignedJobs failure none) ∧
    (¬(causes 1).Recoverable → ∃ failure fatal,
      Fly.inventory controllerID policyAttempts (Fly.unreachable op address causes) = (1, .error failure) ∧
      fatal.isHandlerFailure = true ∧ s.SkipsOn ephemeral assignedJobs failure (some fatal)) := by
  have hclass := fun n => Provider.isTransient_classify_url op address (causes n)
  have hpositive := Provider.effectiveAttempts_pos policyAttempts
  refine ⟨hclass, fun hall => ?_, fun hnot => ?_⟩
  · have hdo := @Provider.doFrom_transient _ (fun n => { operation := Fly.doJSON (Fly.unreachable op address causes n) }) _ (fun _ => rfl) (fun _ => rfl)
      (fun _ => rfl) (fun n => (hclass n).mpr (hall n)) _ hpositive 1
    rw [Nat.add_sub_cancel_left] at hdo
    have htransient := (hclass (Provider.effectiveAttempts policyAttempts)).mpr (hall _)
    refine ⟨.wrap "list Fly Machines" _, ?_, htransient, s.skipsOn_transient ephemeral assignedJobs htransient⟩
    rw [Fly.inventory, Provider.retryDo, hdo]
  · have hpermanent := Bool.eq_false_iff.mpr fun htransient => hnot ((hclass 1).mp htransient)
    have hdo := @Provider.doFrom_permanent _ (fun n => { operation := Fly.doJSON (Fly.unreachable op address causes n) }) _ _ 1 hpositive rfl rfl hpermanent
    obtain ⟨fatal, hfatal, hskips⟩ := @Scaler.skipsOn_permanent s ephemeral assignedJobs (.wrap "list Fly Machines" _) hpermanent
    refine ⟨.wrap "list Fly Machines" _, fatal, ?_, hfatal, hskips⟩
    rw [Fly.inventory, Provider.retryDo, hdo]

namespace Demo

def lone : Scaler where
  scaleSetName := "main"
  scaleSetID := 1
  minWorkers := 0
  maxWorkers := 1
  launchConcurrency := 1
  maxLifetime := Duration.hour
  idleTimeout := Duration.minute
  danglingTimeout := 0
  ephemeral := none
  speculator := false

def api : String := "https://api.machines.dev/v1/apps/runners/machines"

def clientTimeout : Provider.TransportError := .timeout "context deadline exceeded (Client.Timeout exceeded while awaiting headers)"

end Demo

/-- The connection is reset, five times. -/
theorem outage_costs_a_cycle_reset : ∃ failure,
    Fly.inventory "main" 0 (Fly.unreachable "Get" Demo.api fun _ => .net "read tcp" .connReset) = (5, .error failure) ∧ Demo.lone.SkipsOn false 1 failure none := by
  obtain ⟨failure, hinventory, -, hskips⟩ := (outage_costs_a_cycle_iff Demo.lone false 1 "main" 0 "Get" Demo.api fun _ => .net "read tcp" .connReset).2.1
    fun _ => by decide
  exact ⟨failure, hinventory, hskips⟩

/-- The client gives up on its own, after its `Timeout`. No context has ended, and yet the failure is not retried and ends the controller. -/
theorem client_timeout_ends_controller : (Provider.TransportError.url "Get" Demo.api Demo.clientTimeout).fromContext = false ∧
    (Provider.classifyRequestError (.url "Get" Demo.api Demo.clientTimeout)).isTransient = false ∧ ∃ failure fatal,
      Fly.inventory "main" 0 (Fly.unreachable "Get" Demo.api fun _ => Demo.clientTimeout) = (1, .error failure) ∧
      fatal.isHandlerFailure = true ∧ Demo.lone.SkipsOn false 1 failure (some fatal) := by
  obtain ⟨fatal, hfatal, hskips⟩ := @Scaler.skipsOn_permanent Demo.lone false 1
    (.wrap "list Fly Machines" (Provider.classifyRequestError (.url "Get" Demo.api Demo.clientTimeout))) (by decide)
  exact ⟨by decide, by decide, _, fatal, rfl, hfatal, hskips⟩

end RunnerYard
