import RunnerYard.Controller.Effects
import RunnerYard.Controller.Footprint

/-!
# The calls of a launch

What the programs of the scaler may call. Most of them only make `plain` calls: no launch, no adoption, nothing that works on the gate. Reconciliation and recovery also adopt workers. A launch thread makes three others, in this order and each at most once: the launch itself, the adoption of its lease by the ledger, and the entry of its worker into local state. `Phase` follows a thread through them.
-/

namespace RunnerYard

open Interaction
open Interaction.Prog (Safe All)

/-- A call that neither launches nor adopts a worker and leaves the gate alone. -/
def Call.plain : Call → Bool
  | adopt _ _ => false
  | launch _ _ => false
  | closeGate _ _ _ _ _ => false
  | clearGate => false
  | state (.add _ _) => false
  | state (.adopt _) => false
  | report u => !u.aboutGate
  | _ => true

abbrev Plain {α : Type} (p : Script α) : Prop := All (fun op => op.plain = true) p

/-- A plain call that does nothing to the workers of local state but remove one. -/
def Call.tidy : Call → Bool
  | state (.get _) => true
  | state .count => true
  | state (.countScaleSet _) => true
  | state .summary => true
  | state (.remove _) => true
  | state _ => false
  | op => op.plain

variable {op : Call}

theorem Call.plain_of_tidy (h : op.tidy = true) : op.plain = true := by
  cases op with
  | state op => cases op <;> first | rfl | simp [Call.tidy] at h
  | _ => exact h

abbrev Tidy {α : Type} (p : Script α) : Prop := All (fun op => op.tidy = true) p

theorem Tidy.plain {α : Type} {p : Script α} (h : Tidy p) : Plain p := h.mono fun _ => Call.plain_of_tidy

theorem tidy_ask (h : op.tidy = true) : Tidy (ask op) := ⟨h, fun _ => trivial⟩

theorem tidy_pure {α : Type} (a : α) : Tidy (Pure.pure a : Script α) := trivial

theorem Settling.tidy {α : Type} {p : Script α} (h : Settling p) : Tidy p := by
  refine h.mono fun op hop => ?_
  cases op with
  | state op => cases op <;> first | rfl | cases hop
  | _ => first | rfl | exact hop

theorem Calm.tidy {α : Type} {p : Script α} (h : Calm p) : Tidy p := by
  refine h.mono fun op hop => ?_
  cases op with
  | state op => cases op <;> first | rfl | cases hop
  | _ => first | rfl | exact hop

namespace Scaler

variable (s : Scaler)

/-! ### Retirement -/

theorem tidy_bindRegistration (retirement bound : RetirementEntry) : Tidy (bindRegistration retirement bound) := by
  unfold bindRegistration
  split
  · exact tidy_ask rfl
  · exact tidy_pure _

theorem tidy_removeFoundRegistration (retirement : RetirementEntry) (runner : RunnerReference) :
    Tidy (removeFoundRegistration retirement runner) := by
  refine (tidy_bindRegistration retirement _).bind fun bound => ?_
  cases bound with
  | some failure => exact tidy_pure _
  | none =>
    refine (calm_identityCheck _ _).tidy.bind fun mismatch => ?_
    cases mismatch with
    | some failure => exact tidy_pure _
    | none =>
      refine (tidy_ask rfl).bind fun removed => ?_
      cases removed with
      | some failure => exact tidy_pure _
      | none => exact tidy_pure _

theorem tidy_removeRunnerRegistration (retirement : RetirementEntry) : Tidy (s.removeRunnerRegistration retirement) := by
  unfold removeRunnerRegistration
  split
  · exact tidy_pure _
  · refine (tidy_ask rfl).bind fun found => ?_
    match found with
    | .error failure => exact tidy_pure _
    | .ok none => exact tidy_pure _
    | .ok (some runner) =>
      refine (calm_identityCheck _ _).tidy.bind fun mismatch => ?_
      cases mismatch with
      | some failure => exact tidy_pure _
      | none => exact tidy_removeFoundRegistration retirement runner

theorem tidy_closeRetirement (retirement : RetirementEntry) : Tidy (closeRetirement retirement) := by
  refine (tidy_ask rfl).bind fun now => (settling_chargeRetirement retirement now).tidy.bind fun charged => ?_
  cases charged with
  | some failure => exact (calm_degraded _ _).tidy
  | none =>
    refine (tidy_ask rfl).bind fun _ => (tidy_ask rfl).bind fun removed => ?_
    cases removed with
    | some failure => exact (calm_degraded _ _).tidy
    | none => exact calm_reportRetirements.tidy.bind fun _ => tidy_pure _

theorem tidy_finishRetirement (worker : Worker) (providerPresent : Bool) (retirement : RetirementEntry) :
    Tidy (s.finishRetirement worker providerPresent retirement) := by
  refine (calm_identityCheck _ _).tidy.bind fun mismatch => ?_
  cases mismatch with
  | some failure => exact tidy_pure _
  | none =>
    refine (settling_destroyPresent worker providerPresent).tidy.bind fun destroyed => ?_
    cases destroyed with
    | some failure => exact (calm_degraded _ _).tidy
    | none =>
      refine (s.tidy_removeRunnerRegistration retirement).bind fun removed => ?_
      cases removed with
      | some failure => exact (calm_degraded _ _).tidy
      | none => exact tidy_closeRetirement retirement

theorem tidy_retireWorker (worker : Worker) (providerPresent : Bool) (disposition : BudgetDisposition) (stoppedAt : Int) :
    Tidy (s.retireWorker worker providerPresent disposition stoppedAt) := by
  refine (tidy_ask rfl).bind fun now => (tidy_ask rfl).bind fun put => ?_
  cases put with
  | some failure => exact (calm_degraded _ _).tidy
  | none =>
    exact calm_reportRetirements.tidy.bind fun _ => (s.tidy_finishRetirement worker providerPresent _).bind fun _ => tidy_pure _

theorem tidy_finishPendingRetirement (workers : List Worker) (u : Unit) (retirement : RetirementEntry) :
    Tidy (s.finishPendingRetirement workers u retirement) := by
  refine (settling_pendingWorker _ retirement).tidy.bind fun worker => (calm_identityCheck _ _).tidy.bind fun mismatch => ?_
  cases mismatch with
  | some failure => exact tidy_pure _
  | none => exact (s.tidy_finishRetirement worker _ retirement).bind fun _ => tidy_pure _

theorem tidy_finishPendingRetirements (workers : List Worker) : Tidy (s.finishPendingRetirements workers) := by
  unfold finishPendingRetirements
  cases duplicateName workers [] with
  | some name => exact tidy_pure _
  | none =>
    refine (tidy_ask rfl).bind fun pending => ?_
    exact (Prog.closed_all.forEach (s.tidy_finishPendingRetirement workers) pending ()).bind fun _ => tidy_pure _

/-! ### Failed launches -/

theorem tidy_cleanupRejectedLaunch (retirement : RetirementEntry) : Tidy (s.cleanupRejectedLaunch retirement) := by
  refine (s.tidy_removeRunnerRegistration retirement).bind fun unregistered => ?_
  cases unregistered with
  | some failure => exact (calm_degraded _ _).tidy
  | none =>
    refine (tidy_ask rfl).bind fun released => ?_
    cases released with
    | some failure => exact (calm_degraded _ _).tidy
    | none =>
      refine (tidy_ask rfl).bind fun removed => ?_
      cases removed with
      | some failure => exact (calm_degraded _ _).tidy
      | none => exact calm_reportRetirements.tidy.bind fun _ => tidy_pure _

theorem tidy_cleanupJITGenerationFailure (retirement : RetirementEntry) (generationErr : Err) :
    Tidy (s.cleanupJITGenerationFailure retirement generationErr) := by
  refine (tidy_ask rfl).bind fun found => ?_
  match found with
  | .error failure => exact tidy_pure _
  | .ok none =>
    refine (tidy_ask rfl).bind fun removed => ?_
    cases removed with
    | some failure => exact tidy_pure _
    | none => exact calm_reportRetirements.tidy.bind fun _ => (tidy_ask rfl).bind fun _ => tidy_pure _
  | .ok (some runner) =>
    refine (calm_identityCheck _ _).tidy.bind fun mismatch => ?_
    cases mismatch with
    | some failure => exact tidy_pure _
    | none =>
      refine (tidy_ask rfl).bind fun put => ?_
      cases put with
      | some failure => exact tidy_pure _
      | none => exact (s.tidy_finishRetirement _ _ _).bind fun _ => tidy_pure _

theorem tidy_cleanupListedWorker (retirement : RetirementEntry) (launchErr : Err) (partialWorker : Option Worker) (cleaned : Bool)
    (worker : Worker) : Tidy (s.cleanupListedWorker retirement launchErr partialWorker cleaned worker) := by
  unfold cleanupListedWorker
  split
  · exact tidy_pure _
  · refine (s.tidy_retireWorker worker true .forfeitReservation 0).bind fun retired => ?_
    cases retired with
    | some failure => exact tidy_pure _
    | none => exact tidy_pure _

theorem tidy_cleanupListedWorkers (retirement : RetirementEntry) (launchErr : Err) (partialWorker : Option Worker) :
    Tidy (s.cleanupListedWorkers retirement launchErr partialWorker) := by
  refine (tidy_ask rfl).bind fun listing => ?_
  cases listing with
  | error failure => exact tidy_pure _
  | ok workers =>
    refine (Prog.closed_all.forEach (s.tidy_cleanupListedWorker retirement launchErr partialWorker) workers false).bind fun result => ?_
    match result with
    | (_, some failure) => exact tidy_pure _
    | (true, none) => exact tidy_pure _
    | (false, none) =>
      refine (s.tidy_finishRetirement _ _ _).bind fun finished => ?_
      cases finished with
      | some failure => exact tidy_pure _
      | none => exact tidy_pure _

theorem tidy_cleanupPartialWorker (launchErr : Err) : Tidy (s.cleanupPartialWorker launchErr) := by
  unfold cleanupPartialWorker
  split
  · refine (s.tidy_retireWorker _ _ _ _).bind fun retired => ?_
    cases retired with
    | some failure => exact tidy_pure _
    | none => exact tidy_pure _
  · exact tidy_pure _

theorem tidy_cleanupAmbiguousLaunch (retirement : RetirementEntry) (launchErr : Err) :
    Tidy (s.cleanupAmbiguousLaunch retirement launchErr) := by
  refine (s.tidy_cleanupPartialWorker launchErr).bind fun cleaned => ?_
  cases cleaned with
  | some failure => exact tidy_pure _
  | none => exact s.tidy_cleanupListedWorkers retirement launchErr _

theorem tidy_failedLaunch (retirement : RetirementEntry) (launchErr : Err) : Tidy (s.failedLaunch retirement launchErr) := by
  unfold failedLaunch
  split
  · refine (s.tidy_cleanupRejectedLaunch retirement).bind fun cleaned => ?_
    cases cleaned with
    | some failure => exact tidy_pure _
    | none => exact calm_reportBudget.tidy.bind fun _ => tidy_pure _
  · refine (calm_reportWhen _ rfl).tidy.bind fun _ => (s.tidy_cleanupAmbiguousLaunch retirement launchErr).bind fun cleaned => ?_
    cases cleaned with
    | some failure => exact tidy_pure _
    | none => exact calm_reportBudget.tidy.bind fun _ => tidy_pure _

theorem tidy_resolveRegistration (name : String) (jit : JitRunnerConfig) : Tidy (resolveRegistration name jit) := by
  unfold resolveRegistration
  split
  · exact tidy_pure _
  · exact tidy_ask rfl

end Scaler

/-! ### Reconciliation, recovery and job events -/

/-- A plain call, or the adoption of a worker. -/
def Call.gateless : Call → Bool
  | adopt _ _ => true
  | state (.adopt _) => true
  | op => op.plain

theorem Call.gateless_of_plain (h : op.plain = true) : op.gateless = true := by
  cases op with
  | state op => cases op <;> first | rfl | exact h
  | adopt _ _ => rfl
  | _ => exact h

abbrev Gateless {α : Type} (p : Script α) : Prop := All (fun op => op.gateless = true) p

theorem Plain.gateless {α : Type} {p : Script α} (h : Plain p) : Gateless p := h.mono fun _ => Call.gateless_of_plain

theorem gateless_ask (h : op.gateless = true) : Gateless (ask op) := ⟨h, fun _ => trivial⟩

theorem Call.gateless_of_outer (h : op.outer = true) : op.gateless = true := by
  cases op with
  | state op => cases op <;> first | rfl | cases h
  | _ => first | rfl | exact h

theorem Scaler.walk_gateless (s : Scaler) : s.Walk fun {_} p => Gateless p where
  closed := Prog.closed_all
  outer _ hop := gateless_ask (Call.gateless_of_outer hop)
  retireWorker worker providerPresent disposition stoppedAt := (s.tidy_retireWorker worker providerPresent disposition stoppedAt).plain.gateless
  finishPendingRetirements workers := (s.tidy_finishPendingRetirements workers).plain.gateless

/-! ### The course of a launch thread -/

inductive Phase where
  | before
  | launched
  | confirmed
  | entered
  deriving DecidableEq, Repr

namespace Phase

/-- The calls that a thread for `leaseID` may make in a phase. -/
def permits (leaseID : String) : Call → Phase → Prop
  | .launch _ lease, phase => phase = before ∧ lease.id = leaseID ∧ lease.runnerName = runnerName leaseID
  | .adopt adopted _, phase => phase = launched ∧ adopted = leaseID
  | .state (.add _ _), phase => phase = confirmed
  | op, _ => op.plain = true

/-- The phase after a call. Only an adoption that succeeds confirms the worker. -/
def after : (op : Call) → op.Ans → Phase → Phase
  | .launch _ _, _, _ => launched
  | .adopt _ _, none, _ => confirmed
  | .state (.add _ _), _, _ => entered
  | _, _, phase => phase

/-- The journal fails to remove an entry only when its write fails. -/
def Plausible : (op : Call) → op.Ans → Prop
  | .remove _, some failure => ∃ message, failure = .disk message
  | _, _ => True

def logic (leaseID : String) : Logic Call.Ans Phase where
  step op phase answer phase' := Plausible op answer ∧ phase' = after op answer phase
  guard := permits leaseID
  rely phase phase' := phase' = phase

def refusing (result : Bool × Option Err) : Bool := result.2.any fun failure => failure.isCapacity || failure.asLaunchRejected.isSome

/-- How a launch thread ends: once its worker is in local state, it refuses nothing. -/
def Ends (result : Bool × Option Err) (phase : Phase) : Prop := phase ≠ confirmed ∧ (phase = entered → refusing result = false)

theorem after_of_plain {op : Call} (h : op.plain = true) (answer : op.Ans) (phase : Phase) : after op answer phase = phase := by
  cases op with
  | state op => cases op <;> first | rfl | simp [Call.plain] at h
  | adopt _ _ | launch _ _ => simp [Call.plain] at h
  | _ => rfl

theorem ends_entered {result : Bool × Option Err} (h : refusing result = false) : Ends result entered := ⟨by simp, fun _ => h⟩

end Phase

/-- How far a launch thread has come, and the ID of the worker that its launch returned. -/
structure Course where
  phase : Phase := .before
  launched : Option String := none
  deriving DecidableEq, Repr

namespace Course

/-- The calls of a thread that launches for `leaseID` on `tier`. It enters the worker it has launched, and enters it idle. -/
def permits (tier : Tier) (leaseID : String) : Call → Course → Prop
  | .launch place lease, course => course.phase = .before ∧ place = tier ∧ lease.id = leaseID ∧ lease.runnerName = runnerName leaseID
  | .adopt adopted _, course => course.phase = .launched ∧ adopted = leaseID
  | .state (.add worker busy), course => course.phase = .confirmed ∧ course.launched = some worker.id ∧ busy = false
  | op, _ => op.tidy = true

def after : (op : Call) → op.Ans → Course → Course
  | .launch _ _, .ok worker, _ => { phase := .launched, launched := some worker.id }
  | op, answer, course => { course with phase := Phase.after op answer course.phase }

def logic (tier : Tier) (leaseID : String) : Logic Call.Ans Course where
  step op course answer course' := Phase.Plausible op answer ∧ course' = after op answer course
  guard := permits tier leaseID
  rely course course' := course' = course

def Ends (result : Bool × Option Err) (course : Course) : Prop := Phase.Ends result course.phase

variable {tier : Tier} {leaseID : String} {course : Course}

theorem after_phase (op : Call) (answer : op.Ans) (course : Course) : (after op answer course).phase = Phase.after op answer course.phase := by
  unfold after
  split <;> rfl

theorem after_of_tidy {op : Call} (h : op.tidy = true) (answer : op.Ans) (course : Course) : after op answer course = course := by
  have hphase := Phase.after_of_plain (Call.plain_of_tidy h) answer course.phase
  unfold after
  split
  · simp [Call.tidy, Call.plain] at h
  · rw [hphase]

theorem permits_of_tidy {op : Call} (h : op.tidy = true) (course : Course) : permits tier leaseID op course := by
  cases op with
  | state op => cases op <;> first | exact h | simp [Call.tidy] at h
  | adopt _ _ | launch _ _ => simp [Call.tidy, Call.plain] at h
  | _ => exact h

theorem safe_of_tidy {α : Type} {p : Script α} (h : Tidy p) (course : Course) :
    Safe (logic tier leaseID) p (fun _ course' => course' = course) course := by
  refine h.safe (· = course) rfl (fun op course' hop _ => permits_of_tidy hop course') ?_
  rintro op _ answer _ _ hop rfl ⟨-, rfl⟩ rfl
  exact after_of_tidy hop answer _

theorem ends_of_tidy {p : Script (Bool × Option Err)} (h : Tidy p) (hphase : course.phase = .before ∨ course.phase = .launched) :
    Safe (logic tier leaseID) p Ends course := by
  refine (safe_of_tidy h course).mono fun result course' hsame => ?_
  rw [hsame]
  rcases hphase with hphase | hphase <;> exact ⟨by simp [hphase], by simp [hphase]⟩

theorem ask_course {op : Call} {post : op.Ans → Course → Prop} (hpermits : permits tier leaseID op course)
    (h : ∀ answer, Phase.Plausible op answer → post answer (after op answer course)) : Safe (logic tier leaseID) (ask op) post course := by
  refine Prog.safe_perform hpermits fun answer course₁ hstep course₂ hrely => ?_
  obtain ⟨hanswer, rfl⟩ := hstep
  exact hrely ▸ h answer hanswer

theorem commitLaunch_course {s : Scaler} {entry : RetirementEntry} {worker : Worker} (hlease : entry.leaseID = leaseID) :
    Safe (logic tier leaseID) (s.commitLaunch entry worker) Ends { phase := .launched, launched := some worker.id } := by
  refine (Prog.safe_bind _ _ _ _).mpr (ask_course ⟨rfl, hlease⟩ fun adopted _ => ?_)
  cases adopted with
  | some failure =>
    refine ends_of_tidy ?_ (Or.inr rfl)
    exact (tidy_ask rfl).bind fun _ => (s.tidy_retireWorker _ _ _ _).bind fun _ => calm_reportBudget.tidy.bind fun _ => tidy_pure _
  | none =>
    refine (Prog.safe_bind _ _ _ _).mpr (ask_course ⟨rfl, rfl, rfl⟩ fun _ _ => ?_)
    refine (Prog.safe_bind _ _ _ _).mpr (ask_course rfl fun removed hremoved => ?_)
    cases removed with
    | some failure =>
      obtain ⟨message, rfl⟩ := hremoved
      refine (safe_of_tidy (tidy_ask rfl) _).bind fun _ course hcourse => ?_
      exact hcourse ▸ Phase.ends_entered rfl
    | none =>
      refine (safe_of_tidy calm_reportRetirements.tidy _).bind fun _ course₁ h₁ => ?_
      refine (safe_of_tidy s.calm_reportState.tidy course₁).bind fun _ course₂ h₂ => ?_
      refine (safe_of_tidy calm_reportBudget.tidy course₂).bind fun _ course₃ h₃ => ?_
      refine (safe_of_tidy (tidy_ask rfl) course₃).bind fun _ course₄ h₄ => ?_
      rw [h₄, h₃, h₂, h₁]
      exact Phase.ends_entered rfl

theorem launchWorker_course {s : Scaler} {entry : RetirementEntry} {jit : JitRunnerConfig} (hlease : entry.leaseID = leaseID)
    (hname : entry.runnerName = runnerName leaseID) : Safe (logic tier leaseID) (s.launchWorker tier entry jit) Ends {} := by
  refine (safe_of_tidy (tidy_ask rfl) _).bind fun _ course₁ h₁ => ?_
  refine (safe_of_tidy (tidy_ask rfl) course₁).bind fun now course₂ h₂ => ?_
  rw [h₂, h₁]
  refine (Prog.safe_bind _ _ _ _).mpr (ask_course ⟨rfl, rfl, hlease, hname⟩ fun answer _ => ?_)
  refine (safe_of_tidy (tidy_ask rfl) _).bind fun _ course₃ h₃ => ?_
  rw [h₃]
  cases answer with
  | error launchErr => exact ends_of_tidy (s.tidy_failedLaunch entry launchErr) (Or.inr rfl)
  | ok worker => exact commitLaunch_course hlease

theorem registerWorker_course {s : Scaler} {entry : RetirementEntry} (hlease : entry.leaseID = leaseID)
    (hname : entry.runnerName = runnerName leaseID) : Safe (logic tier leaseID) (s.registerWorker tier entry) Ends {} := by
  have hcleanup (generationErr : Err) : Tidy (do
      let failure ← s.cleanupJITGenerationFailure entry generationErr
      Pure.pure (false, some failure) : Script (Bool × Option Err)) :=
    (s.tidy_cleanupJITGenerationFailure entry generationErr).bind fun _ => tidy_pure _
  refine (safe_of_tidy (tidy_ask rfl) _).bind fun generated course₁ h₁ => ?_
  rw [h₁]
  match generated with
  | .error failure => exact ends_of_tidy (hcleanup failure) (Or.inl rfl)
  | .ok none => exact ends_of_tidy (hcleanup _) (Or.inl rfl)
  | .ok (some jit) =>
    refine (safe_of_tidy (Scaler.tidy_resolveRegistration _ jit) _).bind fun resolved course₂ h₂ => ?_
    rw [h₂]
    cases resolved with
    | error failure => exact ends_of_tidy (tidy_pure _) (Or.inl rfl)
    | ok registration =>
      dsimp only
      split
      · exact ends_of_tidy ((tidy_ask rfl).bind fun _ => tidy_pure _) (Or.inl rfl)
      · refine (safe_of_tidy (tidy_ask rfl) _).bind fun put course₃ h₃ => ?_
        rw [h₃]
        cases put with
        | some failure => exact ends_of_tidy (calm_degraded _ _).tidy (Or.inl rfl)
        | none => exact launchWorker_course hlease hname

theorem admittedWorker_course {s : Scaler} {route : ScaleSetRoute} :
    Safe (logic tier leaseID) (s.admittedWorker route tier leaseID) Ends {} := by
  refine (safe_of_tidy (tidy_ask rfl) _).bind fun found course₁ h₁ => ?_
  rw [h₁]
  match found with
  | .error failure => exact ends_of_tidy ((tidy_ask rfl).bind fun _ => tidy_pure _) (Or.inl rfl)
  | .ok (some runner) => exact ends_of_tidy ((tidy_ask rfl).bind fun _ => tidy_pure _) (Or.inl rfl)
  | .ok none =>
    refine (safe_of_tidy (tidy_ask rfl) _).bind fun now course₂ h₂ => ?_
    refine (safe_of_tidy (tidy_ask rfl) course₂).bind fun put course₃ h₃ => ?_
    rw [h₃, h₂]
    cases put with
    | some failure =>
      refine ends_of_tidy ?_ (Or.inl rfl)
      exact (tidy_ask rfl).bind fun _ => (tidy_ask rfl).bind fun _ => (tidy_ask rfl).bind fun _ => tidy_pure _
    | none =>
      refine (safe_of_tidy calm_reportRetirements.tidy _).bind fun _ course₄ h₄ => ?_
      rw [h₄]
      exact registerWorker_course rfl rfl

theorem startWorker_course (s : Scaler) (route : ScaleSetRoute) (spare : Bool) (leaseID : String) :
    Safe (logic (if spare then .spare else route.launch) leaseID) (s.startWorker route spare leaseID) Ends {} := by
  refine (safe_of_tidy (tidy_ask rfl) _).bind fun now course₁ h₁ => ?_
  refine (safe_of_tidy (tidy_ask rfl) course₁).bind fun reserved course₂ h₂ => ?_
  rw [h₂, h₁]
  match reserved with
  | .error failure => exact ends_of_tidy (calm_degraded _ _).tidy (Or.inl rfl)
  | .ok (allowed, retryAt) =>
    refine (safe_of_tidy calm_reportBudget.tidy _).bind fun _ course₃ h₃ => ?_
    rw [h₃]
    cases allowed with
    | false => exact ends_of_tidy (tidy_pure _) (Or.inl rfl)
    | true => exact admittedWorker_course

theorem permits_phase {op : Call} (h : permits tier leaseID op course) : Phase.permits leaseID op course.phase := by
  cases op with
  | launch place lease => exact ⟨h.1, h.2.2⟩
  | adopt adopted startedAt => exact h
  | state op =>
    cases op with
    | add worker busy => exact h.1
    | _ => exact Call.plain_of_tidy h
  | _ => exact Call.plain_of_tidy h

end Course

theorem Phase.startWorker_phases (s : Scaler) (route : ScaleSetRoute) (spare : Bool) (leaseID : String) :
    Safe (logic leaseID) (s.startWorker route spare leaseID) Ends before := by
  refine ((Course.startWorker_course s route spare leaseID).simulate (L := logic leaseID) (fun course phase => course.phase = phase) rfl ?_ ?_).mono ?_
  · rintro op course _ rfl hpermits
    exact Course.permits_phase hpermits
  · rintro op course _ answer _ _ rfl - ⟨hanswer, rfl⟩ rfl
    exact ⟨_, _, ⟨hanswer, rfl⟩, rfl, Course.after_phase op answer course⟩
  · rintro result _ ⟨course, rfl, hends⟩
    exact hends

theorem World.plausible_answer {choice : Choice} {w w' : World} {answer : op.Ans} (h : exec op choice w = some (answer, w')) :
    Phase.Plausible op answer := by
  cases op with
  | remove name =>
    cases answer with
    | none => trivial
    | some failure =>
      obtain ⟨w₁, heffect, -⟩ := exec_eq_some_iff.mp h
      obtain ⟨disk, -, hremoved⟩ := onDisk_eq_some_iff.mp heffect
      have hanswer : (w.journal.remove name disk).1 = some failure := (Prod.mk.inj hremoved).1
      unfold RetirementQueue.remove at hanswer
      split at hanswer
      · cases disk with
        | ok => simp [RetirementQueue.persist, Disk.failure] at hanswer
        | failed message landed => exact ⟨message, by simpa [RetirementQueue.persist, Disk.failure] using hanswer.symm⟩
      · simp at hanswer
  | _ => trivial

end RunnerYard
