import RunnerYard.Provider.Error

/-!
# The launch gate

The part of `scaler.go` that holds launches back after a provider ceiling or a rejected launch: `capacityAllowance`, `recordLaunchGate` and `clearLaunchGate` on the fields they share. The timer that wakes the listener for a probe is left out; it only asks for an empty poll, and `capacityAllowance` decides whether that poll probes.
-/

namespace RunnerYard

def capacityInitialBackoff : Int := Duration.minute

def capacityMinimumRetry : Int := 5 * Duration.second

def capacityMaximumBackoff : Int := 15 * Duration.minute

inductive GateKind where
  | capacity
  | launch
  deriving DecidableEq, Repr

/-- The `capacity…` fields of the scaler; the gate is open while `reason` is empty. -/
structure LaunchGate where
  kind : Option GateKind := none
  effective : Int := 0
  reason : String := ""
  retryAt : Int := 0
  backoff : Int := 0
  deriving DecidableEq, Repr

namespace Err

def validCapacityReason (reason : String) : Bool :=
  match reason.toList with
  | [] => false
  | first :: rest =>
    decide (rest.length < 64) && 'a' ≤ first && first ≤ 'z' &&
      rest.all fun c => ('a' ≤ c && c ≤ 'z') || ('0' ≤ c && c ≤ '9') || c == '_'

def capacityReason (e : Err) : String :=
  match e.asCapacity with
  | some (reason, _) => if validCapacityReason reason then reason else "provider_capacity_limit"
  | none => "provider_capacity_limit"

def capacityRetryAfter (e : Err) : Int :=
  match e.asCapacity with
  | some (_, retryAfter) => if 0 < retryAfter then retryAfter else 0
  | none => 0

def launchRejectionReason (e : Err) : String :=
  match e.asLaunchRejected with
  | some reason => if reason ≠ "" then reason else "provider_launch_rejected"
  | none => "provider_launch_rejected"

def classifyLaunchFailure (e : Err) : Err :=
  if e.isTransient || e.isCapacity then e
  else
    match e.asStatus with
    | some (provider, code) =>
      if code = 401 || code = 403 then e else launchRejected s!"{provider}_status_{code}" e
    | none => launchRejected "provider_launch_rejected" e

theorem capacityReason_ne (e : Err) : e.capacityReason ≠ "" := by
  unfold capacityReason
  split
  · split
    · rename_i reason _ _ hvalid
      rintro rfl
      simp [validCapacityReason] at hvalid
    · decide
  · decide

theorem launchRejectionReason_ne (e : Err) : e.launchRejectionReason ≠ "" := by
  unfold launchRejectionReason
  split
  · split
    · assumption
    · decide
  · decide

end Err

namespace LaunchGate

/-- `capacityAllowance`: how many launches are admitted, and whether they are a probe. -/
def capacityAllowance (gate : LaunchGate) (now current target : Int) : Int × Bool :=
  let requested := max 0 (target - current)
  if requested = 0 || gate.reason = "" then (requested, false)
  else if current < gate.effective then (min requested (gate.effective - current), false)
  else if now < gate.retryAt then (0, false)
  else (min 1 requested, true)

/-- The wait before the next probe, and the backoff that is stored with it. -/
def backoffAfter (gate : LaunchGate) (kind : GateKind) (hint : Int) : Int × Int :=
  if kind = .capacity && decide (0 < hint) then (min (max hint capacityMinimumRetry) capacityMaximumBackoff, gate.backoff)
  else if gate.backoff = 0 then (capacityInitialBackoff, capacityInitialBackoff)
  else (min (gate.backoff * 2) capacityMaximumBackoff, min (gate.backoff * 2) capacityMaximumBackoff)

/-- The locked part of `recordLaunchGate`. -/
def close (gate : LaunchGate) (kind : GateKind) (reason : String) (effective hint now : Int) : LaunchGate :=
  let (wait, backoff) := gate.backoffAfter kind hint
  { kind := some kind, effective, reason, retryAt := now + wait, backoff }

variable {gate : LaunchGate}

theorem capacityAllowance_open (h : gate.reason = "") (now current target : Int) :
    gate.capacityAllowance now current target = (max 0 (target - current), false) := by
  simp [capacityAllowance, h]

theorem capacityAllowance_closed (hclosed : gate.reason ≠ "") {now current target needed : Int} {probing : Bool}
    (h : gate.capacityAllowance now current target = (needed, probing)) (hneeded : 0 < needed) :
    (probing = false ∧ current + needed ≤ gate.effective) ∨ (probing = true ∧ needed = 1 ∧ gate.retryAt ≤ now) := by
  have hrequested : max 0 (target - current) ≠ 0 := by
    intro hzero
    simp only [capacityAllowance, hzero, decide_true, Bool.true_or, if_true, Prod.mk.injEq] at h
    omega
  simp only [capacityAllowance, hrequested, hclosed, decide_false, Bool.or_self, Bool.false_eq_true, if_false] at h
  split at h
  · simp only [Prod.mk.injEq] at h
    exact Or.inl ⟨h.2.symm, by omega⟩
  · split at h
    · simp only [Prod.mk.injEq] at h
      omega
    · simp only [Prod.mk.injEq] at h
      right
      refine ⟨h.2.symm, ?_, ?_⟩ <;> omega

def Paced (gate : LaunchGate) : Prop :=
  gate.backoff = 0 ∨ (capacityInitialBackoff ≤ gate.backoff ∧ gate.backoff ≤ capacityMaximumBackoff)

theorem wait_close (h : gate.Paced) (kind : GateKind) (reason : String) (effective hint now : Int) :
    capacityMinimumRetry ≤ (gate.close kind reason effective hint now).retryAt - now ∧
      (gate.close kind reason effective hint now).retryAt - now ≤ capacityMaximumBackoff := by
  simp only [Paced, close, backoffAfter, capacityInitialBackoff, capacityMaximumBackoff, capacityMinimumRetry, Duration.minute,
    Duration.second] at h ⊢
  split
  · dsimp only
    omega
  · split <;> dsimp only <;> omega

theorem backoff_close (h : gate.Paced) (kind : GateKind) (reason : String) (effective hint now : Int) :
    (gate.close kind reason effective hint now).Paced ∧ gate.backoff ≤ (gate.close kind reason effective hint now).backoff := by
  simp only [Paced, close, backoffAfter, capacityInitialBackoff, capacityMaximumBackoff, Duration.minute, Duration.second] at h ⊢
  split
  · exact ⟨h, le_refl _⟩
  · split <;> dsimp only <;> omega

end LaunchGate

end RunnerYard
