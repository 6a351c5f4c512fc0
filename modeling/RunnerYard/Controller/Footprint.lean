import RunnerYard.Controller.System

/-!
# What the programs of the scaler work on

Most of a program's calls work on its own status and gate, or only read the clock and local state. They are `Inward`: no proof about workers, registrations, the ledger or the journal has to look at them. What is left of a handler is its reconciliation, its pools of launches and its retirements; `Scaler.handle_rule` says so once for all proofs. Reconciliation, recovery and the handlers of job events are retirements with `Outer` calls between them; `Scaler.Walk` says that.
-/

namespace RunnerYard

open Interaction
open Interaction.Prog (Safe All lift fanOut)

/-- A call that works on the status or the gate, or that only reads. -/
def Call.inward : Call → Bool
  | now => true
  | snapshot _ => true
  | retirementCount => true
  | overdue _ _ => true
  | gateOpen => true
  | capacityAllowance _ _ => true
  | closeGate _ _ _ _ _ => true
  | clearGate => true
  | report _ => true
  | spareRoom => true
  | note (.identityMismatch _) => true
  | state .count => true
  | state (.countScaleSet _) => true
  | state .summary => true
  | state (.idleByStart _) => true
  | _ => false

abbrev Inward {α : Type} (p : Script α) : Prop := All (fun op => op.inward = true) p

theorem inward_ask {op : Call} (h : op.inward = true) : Inward (ask op) := ⟨h, fun _ => trivial⟩

def StatusUpdate.aboutGate : StatusUpdate → Bool
  | capacityRejected _ _ _ => true
  | capacityRecovered => true
  | launchRejected _ _ => true
  | launchRecovered => true
  | _ => false

/-- An inward call that leaves the gate alone. -/
def Call.calm : Call → Bool
  | now => true
  | snapshot _ => true
  | retirementCount => true
  | overdue _ _ => true
  | report u => !u.aboutGate
  | note (.identityMismatch _) => true
  | state .count => true
  | state (.countScaleSet _) => true
  | state .summary => true
  | _ => false

abbrev Calm {α : Type} (p : Script α) : Prop := All (fun op => op.calm = true) p

theorem Calm.inward {α : Type} {p : Script α} (h : Calm p) : Inward p := by
  refine h.mono fun op hop => ?_
  cases op with
  | state op => cases op <;> first | rfl | cases hop
  | note note => cases note <;> first | rfl | cases hop
  | _ => first | rfl | cases hop

theorem calm_ask {op : Call} (h : op.calm = true) : Calm (ask op) := ⟨h, fun _ => trivial⟩

theorem calm_identityCheck (leaseID : String) (failure : Option Err) : Calm (identityCheck leaseID failure) := by
  cases failure with
  | none => trivial
  | some failure => exact (calm_ask rfl).bind fun _ => trivial

theorem calm_reportWhen (condition : Bool) {u : StatusUpdate} (h : u.aboutGate = false) : Calm (reportWhen condition u) := by
  cases condition with
  | false => trivial
  | true => exact calm_ask (by rw [Call.calm, h]; rfl)

theorem calm_reportRetirements : Calm reportRetirements :=
  (calm_ask rfl).bind fun _ => (calm_ask rfl).bind fun _ => (calm_ask rfl).bind fun _ => calm_ask rfl

theorem calm_reportBudget : Calm reportBudget :=
  (calm_ask rfl).bind fun _ => (calm_ask rfl).bind fun _ => calm_ask rfl

theorem calm_degraded {α : Type} (reason : String) (a : α) :
    Calm (do
      report (.degraded reason)
      Pure.pure a) :=
  (calm_ask rfl).bind fun _ => trivial

theorem inward_reportWhen (condition : Bool) (u : StatusUpdate) : Inward (reportWhen condition u) := by
  cases condition with
  | false => trivial
  | true => exact inward_ask rfl

namespace Scaler

variable (s : Scaler)

theorem calm_reportState : Calm s.reportState := by
  refine (calm_ask rfl).bind fun _ => (calm_ask rfl).bind fun _ => ?_
  unfold reportScaleSets
  cases s.ephemeral with
  | none => trivial
  | some other => exact (calm_ask rfl).bind fun _ => (calm_ask rfl).bind fun _ => calm_ask rfl

theorem inward_routeCounts (route : ScaleSetRoute) : Inward (s.routeCounts route) := by
  unfold routeCounts
  cases s.ephemeral with
  | none => exact (inward_ask rfl).bind fun _ => trivial
  | some other => exact (inward_ask rfl).bind fun _ => trivial

theorem inward_recordLaunchGate (kind : GateKind) (reason : String) (failure : Err) : Inward (recordLaunchGate kind reason failure) :=
  (inward_ask rfl).bind fun _ => (inward_ask rfl).bind fun _ => (inward_ask rfl).bind fun _ =>
    (inward_reportWhen _ _).bind fun _ => inward_ask rfl

theorem inward_recordLaunches (spare : Bool) (sum : LaunchSummary) : Inward (recordLaunches spare sum) := by
  unfold recordLaunches
  cases sum.capacityErr with
  | some failure =>
    cases spare with
    | true => trivial
    | false => exact inward_recordLaunchGate _ _ _
  | none =>
    cases sum.rejectedErr with
    | some failure => exact inward_recordLaunchGate _ _ _
    | none => trivial

theorem inward_clearLaunchGate : Inward clearLaunchGate := by
  refine (inward_ask rfl).bind fun (kind, hadRejection) => ?_
  cases hadRejection with
  | false => trivial
  | true => exact inward_ask rfl

theorem inward_afterProbe (probing : Bool) (fleet : Nat) : Inward (afterProbe probing fleet) := by
  unfold afterProbe
  cases probing with
  | false => trivial
  | true =>
    refine (inward_ask rfl).bind fun count => ?_
    split
    · exact inward_clearLaunchGate
    · trivial

section Handlers

variable {s} {L : Logic (MainAns Call.Ans LaunchRequest LaunchSummary) World} {P : World → Prop}
  (hinward : ∀ {α : Type} {p : Script α} {w : World}, Inward p → P w → Safe L (lift p) (fun _ => P) w)
include hinward

theorem launchWorkers_rule (route : ScaleSetRoute) (needed : Nat) (spare : Bool) {w : World}
    (hfan : Safe L (fanOut { route, needed, spare }) (fun _ => P) w) : Safe L (launchWorkers route needed spare) (fun _ => P) w :=
  hfan.bind fun sum _ h₁ => (hinward (inward_recordLaunches spare sum) h₁).bind fun _ _ h₂ => h₂

theorem scaleUp_rule (route : ScaleSetRoute) (hfan : ∀ {needed w}, P w → Safe L (fanOut { route, needed, spare := false }) (fun _ => P) w)
    (target : Int) {w : World} (h : P w) : Safe L (s.scaleUp route target) (fun _ => P) w := by
  refine (hinward (s.inward_routeCounts route) h).bind fun (current, fleet) w₁ h₁ => ?_
  dsimp only
  split
  · exact h₁
  · refine (hinward (inward_ask rfl) h₁).bind fun (needed, probing) w₂ h₂ => ?_
    dsimp only
    split
    · exact h₂
    · refine (launchWorkers_rule hinward route needed.toNat false (hfan h₂)).bind fun failure w₃ h₃ => ?_
      cases failure with
      | some failure => exact h₃
      | none => exact (hinward (inward_afterProbe probing fleet) h₃).bind fun _ _ h₄ => h₄

theorem speculate_rule (hfan : ∀ {request w}, P w → Safe L (fanOut request) (fun _ => P) w) (route : ScaleSetRoute) (assignedJobs : Int)
    {w : World} (h : P w) : Safe L (s.speculate route assignedJobs) (fun _ => P) w := by
  unfold speculate
  split
  · exact h
  · refine (hinward (inward_ask rfl) h).bind fun isOpen w₁ h₁ => ?_
    split
    · exact h₁
    · refine (hinward (inward_ask rfl) h₁).bind fun room w₂ h₂ => ?_
      split
      · exact h₂
      · refine (hinward (inward_ask rfl) h₂).bind fun (busy, fastIdle, slowIdle) w₃ h₃ => ?_
        refine (hinward (inward_ask rfl) h₃).bind fun fleet w₄ h₄ => ?_
        dsimp only
        split
        · exact h₄
        · exact launchWorkers_rule hinward route _ true (hfan h₄)

/-- What holds before a handler holds after it, if its parts keep it. -/
theorem handle_rule (hfan : ∀ {request w}, P w → Safe L (fanOut request) (fun _ => P) w) (hreconcile : ∀ {w}, P w → Safe L (lift s.reconcile) (fun _ => P) w)
    (event : ListenerEvent) {w : World} (h : P w)
    (hstarted : ∀ name, event = .jobStarted name → Safe L (lift (s.handleJobStarted name)) (fun _ => P) w)
    (hcompleted : ∀ name finishTime, event = .jobCompleted name finishTime →
      Safe L (lift (s.handleJobCompleted name finishTime)) (fun _ => P) w) :
    Safe L (s.handle event) (fun _ => P) w := by
  cases event with
  | jobStarted name => exact (hstarted name rfl).bind fun _ _ h₁ => h₁
  | jobCompleted name finishTime => exact (hcompleted name finishTime rfl).bind fun _ _ h₁ => h₁
  | desiredRunnerCount ephemeral assignedJobs =>
    have hdesired : ∀ route, Safe L (s.handleDesiredRunnerCount route assignedJobs) (fun _ => P) w := by
      intro route
      refine (hinward (inward_ask rfl) h).bind fun _ w₁ h₁ => (hreconcile h₁).bind fun failure w₂ h₂ => ?_
      cases failure with
      | some failure => exact h₂
      | none =>
        refine (scaleUp_rule hinward route hfan _ h₂).bind fun failure w₃ h₃ => ?_
        cases failure with
        | some failure => exact h₃
        | none =>
          dsimp only
          split
          · exact speculate_rule hinward hfan route assignedJobs h₃
          · exact h₃
    exact (hdesired _).bind fun _ _ h₁ => h₁

end Handlers

end Scaler

/-! ### Retirements and what is between them -/

/-- A call about a worker that is retired: its deletion, and the charge for it. -/
def Call.settling : Call → Bool
  | destroy _ => true
  | inventory _ => true
  | forfeit _ _ => true
  | settleAt _ _ _ => true
  | state (.get _) => true
  | op => op.calm

abbrev Settling {α : Type} (p : Script α) : Prop := All (fun op => op.settling = true) p

theorem settling_ask {op : Call} (h : op.settling = true) : Settling (ask op) := ⟨h, fun _ => trivial⟩

/-- A call of reconciliation, recovery or a job event outside of retirements. -/
def Call.outer : Call → Bool
  | adopt _ _ => true
  | reconcileLeases _ _ => true
  | note _ => true
  | state (.add _ _) => false
  | state (.remove _) => false
  | state _ => true
  | op => op.settling

abbrev Outer {α : Type} (p : Script α) : Prop := All (fun op => op.outer = true) p

theorem Calm.outer {α : Type} {p : Script α} (h : Calm p) : Outer p := by
  refine h.mono fun op hop => ?_
  cases op with
  | state op => cases op <;> first | rfl | cases hop
  | _ => first | rfl | exact hop

theorem outer_ask {op : Call} (h : op.outer = true) : Outer (ask op) := ⟨h, fun _ => trivial⟩

namespace Scaler

theorem settling_destroyPresent (worker : Worker) (providerPresent : Bool) : Settling (destroyPresent worker providerPresent) := by
  unfold destroyPresent
  split
  · refine (settling_ask rfl).bind fun deleted => ?_
    cases deleted with
    | none => trivial
    | some deleteErr =>
      refine (settling_ask rfl).bind fun listing => ?_
      cases listing with
      | error inventoryErr => trivial
      | ok workers => trivial
  · trivial

theorem settling_chargeRetirement (retirement : RetirementEntry) (now : Int) : Settling (chargeRetirement retirement now) := by
  unfold chargeRetirement
  cases retirement.budgetDisposition with
  | forfeitReservation => exact settling_ask rfl
  | settleActualUsage => exact settling_ask rfl

theorem settling_pendingWorker (listed : Option Worker) (retirement : RetirementEntry) : Settling (pendingWorker listed retirement) := by
  cases listed with
  | some worker => trivial
  | none =>
    refine (settling_ask rfl).bind fun known => ?_
    cases known with
    | some record => trivial
    | none => trivial

theorem outer_keepListed (records : List WorkerRecord) (seen : Seen) (worker : Worker) : Outer (keepListed records seen worker) := by
  unfold keepListed
  split
  · exact (outer_ask rfl).bind fun _ => trivial
  · refine (outer_ask rfl).bind fun adopted => ?_
    cases adopted with
    | some failure => exact (calm_degraded _ _).outer
    | none => exact (outer_ask rfl).bind fun _ => trivial

variable (s : Scaler)

theorem all_logStopped {P : Call → Prop} (hstopped : ∀ record now awaiting, P (.state (.markStopped record now awaiting))) (worker : Worker)
    (known : Option WorkerRecord) (now : Int) : All P (s.logStopped worker known now) := by
  unfold logStopped
  extract_lets age word
  cases known with
  | none => trivial
  | some record =>
    dsimp only
    split_ifs
    · trivial
    all_goals exact ⟨hstopped _ _ _, fun _ => trivial⟩

theorem outer_recoverWith (workers : List Worker) : Outer (s.recoverWith workers) := by
  have hlisted : ∀ leases worker, Outer (recoverListed leases worker) := by
    intro leases worker
    refine (outer_ask rfl).bind fun adopted => ?_
    cases adopted with
    | some failure => exact (calm_degraded _ _).outer
    | none => exact (outer_ask rfl).bind fun _ => trivial
  refine (outer_ask rfl).bind fun _ => All.bind (Prog.closed_all.forEach hlisted workers []) fun result => ?_
  match result with
  | (_, some failure) => trivial
  | (activeLeases, none) =>
    refine (outer_ask rfl).bind fun now => (outer_ask rfl).bind fun reconciled => ?_
    cases reconciled with
    | some failure => exact (calm_degraded _ _).outer
    | none => exact (outer_ask rfl).bind fun _ => s.calm_reportState.outer.bind fun _ => calm_reportBudget.outer.bind fun _ => trivial

theorem outer_handleJobStarted (name : String) : Outer (s.handleJobStarted name) := by
  refine (outer_ask rfl).bind fun _ => (outer_ask rfl).bind fun known => ?_
  cases known with
  | true => exact s.calm_reportState.outer.bind fun _ => trivial
  | false => exact (outer_ask rfl).bind fun _ => trivial

structure Walk (K : {α : Type} → Script α → Prop) : Prop where
  closed : Prog.Closed @K
  outer : ∀ op : Call, op.outer = true → K (ask op)
  retireWorker : ∀ worker providerPresent disposition stoppedAt, K (s.retireWorker worker providerPresent disposition stoppedAt)
  finishPendingRetirements : ∀ workers, K (s.finishPendingRetirements workers)

namespace Walk

variable {s} {K : {α : Type} → Script α → Prop} (h : s.Walk @K)
include h

theorem all {α : Type} {p : Script α} (hp : Outer p) : K p := h.closed.of_all hp h.outer

theorem retireListed (seen : Seen) (worker : Worker) (what : Err → Err) {after : Script Unit} (hafter : Outer after) :
    K (s.retireListed seen worker what after) := by
  refine h.closed.bind (h.retireWorker worker true .settleActualUsage 0) fun retired => ?_
  cases retired with
  | some failure => exact h.closed.pure _
  | none => exact h.all (hafter.bind fun _ => trivial)

theorem reconcileListed (records : List WorkerRecord) (seen : Seen) (worker : Worker) : K (s.reconcileListed records seen worker) := by
  refine h.closed.bind (h.outer .now rfl) fun now => ?_
  split
  · exact h.retireListed seen worker _ (by trivial)
  · split
    · exact h.retireListed seen worker _ ((outer_ask rfl).bind fun _ => s.all_logStopped (fun _ _ _ => rfl) _ _ _)
    · refine h.closed.bind (h.outer .now rfl) fun now => ?_
      split
      · exact h.retireListed seen worker _ (by trivial)
      · exact h.all (outer_keepListed records seen worker)

theorem retireAbsent (record : WorkerRecord) (now : Int) : K (s.retireAbsent record now) := by
  refine h.closed.bind (h.retireWorker record.worker false .settleActualUsage 0) fun retired => ?_
  cases retired with
  | some failure => exact h.closed.pure _
  | none => exact h.all ((outer_ask rfl).bind fun _ => trivial)

theorem reconcileAbsent (seen : Seen) (now : Int) (u : Unit) (record : WorkerRecord) : K (s.reconcileAbsent seen now u record) := by
  unfold Scaler.reconcileAbsent
  split_ifs
  · exact h.closed.pure _
  · exact h.retireAbsent record now
  · exact h.all ((outer_ask rfl).bind fun _ => trivial)
  · exact h.closed.pure _
  · exact h.retireAbsent record now

theorem reconcileWith (workers : List Worker) : K (s.reconcileWith workers) := by
  refine h.closed.bind (h.outer _ rfl) fun records => h.closed.bind (h.outer _ rfl) fun now => h.closed.bind (h.outer _ rfl) fun _ => ?_
  refine h.closed.bind (h.closed.forEach (h.reconcileListed records) workers {}) fun result => ?_
  match result with
  | (_, some failure) => exact h.closed.pure _
  | (seen, none) =>
    refine h.closed.bind (h.outer _ rfl) fun now => h.closed.bind (h.outer _ rfl) fun _ => h.closed.bind (h.outer _ rfl) fun _ =>
      h.closed.bind (h.outer _ rfl) fun _ => h.closed.bind (h.closed.forEach (h.reconcileAbsent seen now) records ()) fun result => ?_
    match result with
    | (_, some failure) => exact h.closed.pure _
    | (_, none) =>
      exact h.all ((outer_ask rfl).bind fun _ => s.calm_reportState.outer.bind fun _ => calm_reportBudget.outer.bind fun _ =>
        (outer_ask rfl).bind fun _ => trivial)

theorem reconcile : K s.reconcile := by
  refine h.closed.bind (h.outer _ rfl) fun listing => ?_
  cases listing with
  | error failure => exact h.all (calm_degraded _ _).outer
  | ok workers =>
    refine h.closed.bind (h.outer _ rfl) fun pending => ?_
    split
    · refine h.closed.bind (h.finishPendingRetirements workers) fun finished => ?_
      cases finished with
      | some failure => exact h.all (calm_degraded _ _).outer
      | none =>
        refine h.closed.bind (h.outer _ rfl) fun listing => ?_
        cases listing with
        | error failure => exact h.all (calm_degraded _ _).outer
        | ok workers => exact h.reconcileWith workers
    · exact h.reconcileWith workers

theorem recover : K s.recover := by
  refine h.closed.bind (h.outer _ rfl) fun listing => ?_
  cases listing with
  | error failure => exact h.all (calm_degraded _ _).outer
  | ok workers =>
    refine h.closed.bind (h.finishPendingRetirements workers) fun finished => ?_
    cases finished with
    | some failure => exact h.all (calm_degraded _ _).outer
    | none =>
      refine h.closed.bind (h.outer _ rfl) fun listing => ?_
      cases listing with
      | error failure => exact h.all (calm_degraded _ _).outer
      | ok workers => exact h.all (s.outer_recoverWith workers)

theorem handleJobCompleted (name : String) (finishTime : Int) : K (s.handleJobCompleted name finishTime) := by
  refine h.closed.bind (h.outer _ rfl) fun _ => h.closed.bind (h.outer _ rfl) fun _ => h.closed.bind (h.outer _ rfl) fun known => ?_
  cases known with
  | none => exact h.closed.pure _
  | some record =>
    refine h.closed.bind (h.retireWorker record.worker true .settleActualUsage _) fun retired => ?_
    cases retired with
    | some failure => exact h.closed.pure _
    | none =>
      exact h.all (s.calm_reportState.outer.bind fun _ => calm_reportBudget.outer.bind fun _ => (outer_ask rfl).bind fun _ => trivial)

end Walk

end Scaler

end RunnerYard
