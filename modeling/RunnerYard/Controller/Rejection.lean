import RunnerYard.Controller.Effects
import RunnerYard.Budget.Coverage

/-!
# The cost of a refused launch

A launch is refused when the provider answers with a permanent error and its inventory then lists no worker of the lease. `startWorker` goes through the cleanup of an ambiguous launch and charges the lease by the disposition of the entry journaled before the launch, which forfeits the reservation.

`Held` is what `startWorker` holds on the way: the charges of the ledger and the registration under the runner's name.
-/

namespace RunnerYard

open Interaction
open Interaction.Prog (Safe All Returns play)

/-- An error by which the provider refuses a launch for good. A `launchRejectedError` is the controller's own and comes from no provider. -/
def Err.permanent (e : Err) : Bool :=
  !e.isTransient && !e.isCapacity && e.asPartialLaunch.isNone && !e.isUnauthorized && e.asLaunchRejected.isNone

namespace Rejection

/-- The provider refuses the launch of a lease, and GitHub and the disk do what they are asked. -/
def Refusing (leaseID : String) : Call → Choice → World → Prop
  | .launch _ _, .launch (.error failure) _, _ => failure.permanent = true
  | .launch _ _, _, _ => False
  | .inventory _, .inventory (.ok workers), _ => ∀ worker ∈ workers, worker.leaseID ≠ leaseID
  | .inventory _, _, _ => False
  | .getRunnerByName name, .runner (.ok found), w => found = w.registrations.find? (·.name = name)
  | .getRunnerByName _, _, _ => False
  | .generateJitRunnerConfig _ _, .jit (.ok (some jit)) registered, _ => registered = jit.runner
  | .generateJitRunnerConfig _ _, _, _ => False
  | .removeRunner _, .removed answer gone, _ => answer = none ∧ gone = true
  | _, .disk outcome, _ => outcome = .ok
  | _, _, _ => True

instance (leaseID : String) (op : Call) (choice : Choice) (w : World) : Decidable (Refusing leaseID op choice w) := by
  induction op using Call.casesOn with
  | launch tier lease =>
    induction choice using Choice.casesOn with
    | launch answer created =>
      induction answer using Except.casesOn with
      | ok worker => exact isFalse id
      | error failure => exact inferInstanceAs (Decidable (failure.permanent = true))
    | _ => exact isFalse id
  | inventory site =>
    induction choice using Choice.casesOn with
    | inventory answer =>
      induction answer using Except.casesOn with
      | ok workers => exact inferInstanceAs (Decidable (∀ worker ∈ workers, worker.leaseID ≠ leaseID))
      | error failure => exact isFalse id
    | _ => exact isFalse id
  | getRunnerByName name =>
    induction choice using Choice.casesOn with
    | runner answer =>
      induction answer using Except.casesOn with
      | ok found => exact inferInstanceAs (Decidable (found = w.registrations.find? (·.name = name)))
      | error failure => exact isFalse id
    | _ => exact isFalse id
  | generateJitRunnerConfig name scaleSetID =>
    induction choice using Choice.casesOn with
    | jit answer registered =>
      induction answer using Except.casesOn with
      | error failure => exact isFalse id
      | ok config =>
        induction config using Option.casesOn with
        | none => exact isFalse id
        | some jit => exact inferInstanceAs (Decidable (registered = jit.runner))
    | _ => exact isFalse id
  | removeRunner id =>
    induction choice using Choice.casesOn with
    | removed answer gone => exact inferInstanceAs (Decidable (answer = none ∧ gone = true))
    | disk outcome => exact inferInstanceAs (Decidable (outcome = .ok))
    | _ => exact isTrue trivial
  | _ =>
    induction choice using Choice.casesOn with
    | disk outcome => exact inferInstanceAs (Decidable (outcome = .ok))
    | _ => exact isTrue trivial

def logic (leaseID : String) : Logic Call.Ans World where
  step op w answer w' := ∃ choice, Refusing leaseID op choice w ∧ World.exec op choice w = some (answer, w')
  guard _ _ := True
  rely w w' := ∃ changes : List EnvChange, w' = changes.foldl World.change w

def charges (b : UsageBudget) : List (String × Int) := b.entries.map fun entry => (entry.leaseID, entry.seconds)

structure Held (charged : List (String × Int)) (name : String) (ids : Int → Prop) (w : World) : Prop where
  charged : charges w.budget = charged
  registered : ∀ runner ∈ w.registrations, runner.name = name → ids runner.id

def Done (charged : List (String × Int)) (name : String) (w : World) : Prop :=
  Held charged name (fun _ => False) w ∧ w.journal.entries.get name = none

def Outcome (charged : List (String × Int)) (name : String) (result : Option Err) (w : World) : Prop :=
  ∀ failure, result = some failure → failure.asLaunchRejected.isSome = true → Done charged name w

def Cleanup (post : World → Prop) (result : Option Err) (w : World) : Prop :=
  match result with
  | none => post w
  | some failure => failure.asLaunchRejected = none

section Rules

variable {s : Scaler} {leaseID name : String} {charged : List (String × Int)} {ids : Int → Prop} {w w' : World}

theorem changed (h : (logic leaseID).rely w w') :
    w'.budget = w.budget ∧ w'.journal = w.journal ∧ ∀ runner ∈ w'.registrations, runner ∈ w.registrations := by
  obtain ⟨changes, rfl⟩ := h
  induction changes generalizing w with
  | nil => exact ⟨rfl, rfl, fun _ => id⟩
  | cons change rest ih =>
    obtain ⟨hbudget, hjournal, hregistrations⟩ := ih (w := w.change change)
    have hfirst : (w.change change).budget = w.budget ∧ (w.change change).journal = w.journal ∧
        ∀ runner ∈ (w.change change).registrations, runner ∈ w.registrations := by
      cases change with
      | forget runnerName => exact ⟨rfl, rfl, fun _ => List.mem_of_mem_filter⟩
      | _ => exact ⟨rfl, rfl, fun _ => id⟩
    exact ⟨hbudget.trans hfirst.1, hjournal.trans hfirst.2.1, fun runner hrunner => hfirst.2.2 runner (hregistrations runner hrunner)⟩

theorem Held.changed (h : Held charged name ids w) (hrely : (logic leaseID).rely w w') : Held charged name ids w' := by
  obtain ⟨hbudget, -, hregistrations⟩ := Rejection.changed hrely
  exact ⟨by rw [hbudget, h.charged], fun runner hrunner => h.registered runner (hregistrations runner hrunner)⟩

theorem Held.record (h : Held charged name ids w) (entry : LogEntry) : Held charged name ids (w.record entry) := ⟨h.charged, h.registered⟩

theorem Held.sameBut {part : Part} (h : Held charged name ids w) (hsame : World.SameBut part w w') (hledger : part ≠ .ledger)
    (hregistrations : part ≠ .registrations) : Held charged name ids w' :=
  ⟨by rw [(hsame.ledger hledger).1, h.charged], by rw [hsame.registrations hregistrations]; exact h.registered⟩

theorem Done.changed (h : Done charged name w) (hrely : (logic leaseID).rely w w') : Done charged name w' :=
  ⟨h.1.changed hrely, by rw [(Rejection.changed hrely).2.1, h.2]⟩

theorem outcome_of_other {failure : Err} (h : failure.asLaunchRejected = none) : Outcome charged name (some failure) w := by
  rintro other ⟨⟩ hsome
  rw [h] at hsome
  simp at hsome

theorem ask_rule {op : Call} {post : op.Ans → World → Prop} (h : ∀ choice answer w₁ w', Refusing leaseID op choice w →
    World.exec op choice w = some (answer, w₁) → (logic leaseID).rely w₁ w' → post answer w') :
    Safe (logic leaseID) (ask op) post w := by
  refine Prog.safe_perform trivial fun answer w₁ hstep w' hrely => ?_
  obtain ⟨choice, hrefusing, hexec⟩ := hstep
  exact h choice answer w₁ w' hrefusing hexec hrely

theorem ask_keeps {op : Call} (hledger : op.part ≠ .ledger) (hregistrations : op.part ≠ .registrations)
    (h : Held charged name ids w) : Safe (logic leaseID) (ask op) (fun _ => Held charged name ids) w :=
  ask_rule fun _ _ _ _ _ hexec hrely => (h.sameBut (World.exec_sameBut hexec) hledger hregistrations).changed hrely

theorem all_keeps {α : Type} {p : Script α} {keep : World → Prop} (hp : All (fun op => op.part = .none ∨ op.part = .reporter) p)
    (hsame : ∀ w w' part, keep w → World.SameBut part w w' → part = .none ∨ part = .reporter → keep w')
    (hrely : ∀ w w', keep w → (logic leaseID).rely w w' → keep w') (h : keep w) : Safe (logic leaseID) p (fun _ => keep) w := by
  refine hp.safe keep h (fun _ _ _ _ => trivial) fun op w₁ answer w₂ w₃ hop hkeep hstep hchanged => ?_
  obtain ⟨choice, -, hexec⟩ := hstep
  exact hrely w₂ w₃ (hsame w₁ w₂ op.part hkeep (World.exec_sameBut hexec) hop) hchanged

theorem report_keeps {α : Type} {p : Script α} (hp : All (fun op => op.part = .none ∨ op.part = .reporter) p)
    (h : Held charged name ids w) : Safe (logic leaseID) p (fun _ => Held charged name ids) w := by
  refine all_keeps hp (fun w w' part hkeep hsame hpart => hkeep.sameBut hsame ?_ ?_) (fun _ _ hkeep => hkeep.changed) h
  · rcases hpart with rfl | rfl <;> simp
  · rcases hpart with rfl | rfl <;> simp

theorem report_done {α : Type} {p : Script α} (hp : All (fun op => op.part = .none ∨ op.part = .reporter) p)
    (h : Done charged name w) : Safe (logic leaseID) p (fun _ => Done charged name) w := by
  refine all_keeps hp (fun w w' part hkeep hsame hpart => ⟨hkeep.1.sameBut hsame ?_ ?_, ?_⟩) (fun _ _ hkeep => hkeep.changed) h
  · rcases hpart with rfl | rfl <;> simp
  · rcases hpart with rfl | rfl <;> simp
  · rw [hsame.journal (by rcases hpart with rfl | rfl <;> simp), hkeep.2]

theorem reports_reportRetirements : All (fun op => op.part = .none ∨ op.part = .reporter) reportRetirements :=
  ⟨.inl rfl, fun _ => ⟨.inl rfl, fun _ => ⟨.inl rfl, fun _ => ⟨.inr rfl, fun _ => trivial⟩⟩⟩⟩

theorem reports_reportBudget : All (fun op => op.part = .none ∨ op.part = .reporter) reportBudget :=
  ⟨.inl rfl, fun _ => ⟨.inl rfl, fun _ => ⟨.inr rfl, fun _ => trivial⟩⟩⟩

theorem reports_report (u : StatusUpdate) : All (fun op => op.part = .none ∨ op.part = .reporter) (report u) :=
  ⟨.inr rfl, fun _ => trivial⟩

theorem identityCheck_rule {mismatch : Prop} [Decidable mismatch] {message : String} (h : Held charged name ids w) :
    Safe (logic leaseID) (identityCheck leaseID (if mismatch then some (.text message) else none))
      (fun r w' => Cleanup (fun _ => True) r w' ∧ Held charged name ids w') w := by
  split
  · have hnote : Safe (logic leaseID) (ask (.note (.identityMismatch leaseID))) (fun _ => Held charged name ids) w :=
      ask_keeps (by simp [Call.part]) (by simp [Call.part]) h
    exact hnote.bind fun _ _ h' => ⟨rfl, h'⟩
  · exact ⟨trivial, h⟩

/-! ### The cleanup -/

theorem charges_forfeit (b : UsageBudget) (leaseID : String) (now : Int) (disk : Option String) :
    charges (b.forfeit leaseID now disk).budget = charges b := by
  have hcharges : (updateFirst (·.activeFor leaseID) (UsageBudget.forfeited now) b.entries).map (fun entry => (entry.leaseID, entry.seconds)) =
      b.entries.map fun entry => (entry.leaseID, entry.seconds) := map_updateFirst (by intros; rfl) b.entries
  unfold UsageBudget.forfeit
  split
  · cases disk with
    | none => exact hcharges
    | some failure => rfl
  · rfl

variable {entry : RetirementEntry}

theorem removeFoundRegistration_rule (hlease : entry.leaseID = leaseID) (hid : entry.runnerID ≠ 0)
    {runner : RunnerReference} (h : Held charged name (· = entry.runnerID) w) :
    Safe (logic leaseID) (Scaler.removeFoundRegistration entry runner) (Cleanup (Held charged name fun _ => False)) w := by
  simp only [Scaler.removeFoundRegistration, Scaler.bindRegistration, if_neg hid, Prog.safe_bind, Prog.safe_pure]
  subst hlease
  refine (identityCheck_rule h).mono fun r w' hresult => ?_
  obtain ⟨hr, h'⟩ := hresult
  cases r with
  | some failure => exact hr
  | none =>
    refine (Prog.safe_bind _ _ _ _).mpr (ask_rule fun choice answer w₁ w₂ hrefusing hexec hrely => ?_)
    obtain ⟨w₀, heffect, rfl⟩ := World.exec_eq_some_iff.mp hexec
    cases choice <;> simp only [World.effect, Option.some.injEq, Prod.mk.injEq, reduceCtorEq] at heffect
    obtain ⟨rfl, rfl⟩ := hrefusing
    obtain ⟨rfl, hw₀⟩ := heffect
    rw [if_pos rfl, if_neg hid] at hw₀
    have hheld : Held charged name (fun _ => False) w₀ := by
      subst hw₀
      refine ⟨h'.charged, fun runner hrunner hname => ?_⟩
      obtain ⟨hold, hother⟩ := List.mem_filter.mp hrunner
      exact of_decide_eq_true hother (h'.registered runner hold hname)
    exact (hheld.record _).changed hrely

theorem getRunnerByName_rule (h : Held charged name ids w) :
    Safe (logic leaseID) (ask (.getRunnerByName name)) (fun r w' => ∃ found, r = .ok found ∧ Held charged name ids w' ∧
      (found = none → Held charged name (fun _ => False) w') ∧ ∀ runner, found = some runner → ids runner.id) w := by
  refine ask_rule fun choice answer w₁ w' hrefusing hexec hrely => ?_
  have hsame : World.SameBut .none w w₁ := World.exec_sameBut hexec
  have h' := (h.sameBut hsame (by simp) (by simp)).changed hrely
  obtain ⟨w₀, heffect, -⟩ := World.exec_eq_some_iff.mp hexec
  cases choice <;> simp only [World.effect, Option.some.injEq, Prod.mk.injEq, reduceCtorEq] at heffect
  obtain ⟨rfl, -⟩ := heffect
  rename_i answer
  cases answer with
  | error failure => exact hrefusing.elim
  | ok found =>
    refine ⟨found, rfl, h', ?_, ?_⟩
    · rintro rfl
      refine ⟨h'.charged, fun runner hrunner hname => ?_⟩
      have hnone := List.find?_eq_none.mp (Eq.symm hrefusing) runner
        (hsame.registrations (by simp) ▸ (Rejection.changed hrely).2.2 runner hrunner)
      simp [hname] at hnone
    · rintro runner rfl
      have hfound : w.registrations.find? (·.name = name) = some runner := Eq.symm hrefusing
      exact h.registered runner (List.mem_of_find?_eq_some hfound) (by simpa using List.find?_some hfound)

theorem removeRunnerRegistration_rule (hlease : entry.leaseID = leaseID) (hid : entry.runnerID ≠ 0)
    (h : Held charged entry.runnerName (· = entry.runnerID) w) :
    Safe (logic leaseID) (s.removeRunnerRegistration entry) (Cleanup (Held charged entry.runnerName fun _ => False)) w := by
  unfold Scaler.removeRunnerRegistration
  split
  · rfl
  · refine (getRunnerByName_rule h).bind fun r w₁ hresult => ?_
    obtain ⟨found, hr, h₁, hnone, _⟩ := hresult
    subst hr
    cases found with
    | none => exact hnone rfl
    | some runner =>
      subst hlease
      refine (identityCheck_rule h₁).bind fun r w₂ hresult => ?_
      obtain ⟨hr, h₂⟩ := hresult
      cases r with
      | some failure => exact hr
      | none => exact removeFoundRegistration_rule rfl hid h₂

theorem forfeit_rule {now : Int} (h : Held charged name ids w) :
    Safe (logic leaseID) (ask (.forfeit leaseID now)) (fun r w' => r = none ∧ Held charged name ids w') w := by
  refine ask_rule fun choice answer w₁ w' hrefusing hexec hrely => ?_
  obtain ⟨w₀, heffect, rfl⟩ := World.exec_eq_some_iff.mp hexec
  obtain ⟨disk, rfl, hledger⟩ := World.onDisk_eq_some_iff.mp heffect
  obtain rfl : disk = .ok := hrefusing
  obtain ⟨hanswer, hw₀⟩ := Prod.mk.inj hledger
  have hheld : Held charged name ids w₀ := by
    subst hw₀
    exact ⟨(charges_forfeit w.budget leaseID now none).trans h.charged, h.registered⟩
  refine ⟨?_, (hheld.record _).changed hrely⟩
  rw [← hanswer, UsageBudget.forfeit]
  split <;> rfl

theorem remove_answer (q : RetirementQueue) (name : String) : (q.remove name .ok).1 = none := by
  unfold RetirementQueue.remove
  split <;> rfl

theorem remove_rule (h : Held charged name (fun _ => False) w) :
    Safe (logic leaseID) (ask (.remove name)) (fun r w' => r = none ∧ Done charged name w') w := by
  refine ask_rule fun choice answer w₁ w' hrefusing hexec hrely => ?_
  have hheld := h.sameBut (World.exec_sameBut hexec) (by simp [Call.part]) (by simp [Call.part])
  obtain ⟨w₀, heffect, rfl⟩ := World.exec_eq_some_iff.mp hexec
  obtain ⟨disk, rfl, hjournal⟩ := World.onDisk_eq_some_iff.mp heffect
  obtain rfl : disk = .ok := hrefusing
  obtain ⟨hanswer, rfl⟩ := Prod.mk.inj hjournal
  refine ⟨?_, Done.changed ⟨hheld, RetirementQueue.get_remove_self w.journal name⟩ hrely⟩
  exact hanswer.symm.trans (remove_answer w.journal name)

theorem closeRetirement_rule (hlease : entry.leaseID = leaseID)
    (hforfeit : entry.budgetDisposition = .forfeitReservation) (h : Held charged entry.runnerName (fun _ => False) w) :
    Safe (logic leaseID) (Scaler.closeRetirement entry) (Cleanup (Done charged entry.runnerName)) w := by
  subst hlease
  simp only [Scaler.closeRetirement, Scaler.chargeRetirement, hforfeit]
  have htime : Safe (logic entry.leaseID) time (fun _ => Held charged entry.runnerName fun _ => False) w :=
    report_keeps ⟨.inl rfl, fun _ => trivial⟩ h
  refine htime.bind fun now w₁ h₁ => (forfeit_rule h₁).bind ?_
  rintro _ w₂ ⟨rfl, h₂⟩
  have hstate : Safe (logic entry.leaseID) (ask (.state (.remove entry.runnerName))) (fun _ => Held charged entry.runnerName fun _ => False) w₂ :=
    ask_keeps (by simp [Call.part]) (by simp [Call.part]) h₂
  refine hstate.bind fun _ w₃ h₃ => (remove_rule h₃).bind ?_
  rintro _ w₄ ⟨rfl, h₄⟩
  exact (report_done reports_reportRetirements h₄).bind fun _ _ h₅ => h₅

theorem finishRetirement_rule (hlease : entry.leaseID = leaseID) (hid : entry.runnerID ≠ 0)
    (hforfeit : entry.budgetDisposition = .forfeitReservation) (h : Held charged entry.runnerName (· = entry.runnerID) w) :
    Safe (logic leaseID) (s.finishRetirement (Scaler.workerOf entry) false entry) (Cleanup (Done charged entry.runnerName)) w := by
  have hproof : validateWorkerRetirementProof (Scaler.workerOf entry) entry = none := by
    simp [validateWorkerRetirementProof, Scaler.workerOf]
  simp only [Scaler.finishRetirement, hproof, identityCheck, Scaler.destroyPresent, Bool.false_eq_true, if_false, Prog.safe_bind, Prog.safe_pure]
  refine (removeRunnerRegistration_rule hlease hid h).mono fun r w₁ h₁ => ?_
  cases r with
  | none => exact closeRetirement_rule hlease hforfeit h₁
  | some failure =>
    have hreport : Safe (logic leaseID) (report (.degraded "github_runner_cleanup_failed")) (fun _ _ => True) w₁ :=
      ask_rule fun _ _ _ _ _ _ _ => trivial
    refine (Prog.safe_bind _ _ _ _).mpr (hreport.mono fun _ _ _ => ?_)
    change Err.asLaunchRejected _ = none
    have hother : failure.asLaunchRejected = none := h₁
    split
    · simpa using hother
    · exact hother

theorem forEach_cleanupListedWorker {launchErr : Err} {workers : List Worker}
    (h : ∀ worker ∈ workers, worker.leaseID ≠ entry.leaseID) :
    Prog.forEach (s.cleanupListedWorker entry launchErr none) workers false = Pure.pure (false, none) := by
  induction workers with
  | nil => rfl
  | cons worker rest ih =>
    have hskip : s.cleanupListedWorker entry launchErr none false worker = Pure.pure (false, none) := by
      simp [Scaler.cleanupListedWorker, h worker List.mem_cons_self]
    rw [Prog.forEach, hskip]
    exact ih fun other hother => h other (List.mem_cons_of_mem worker hother)

theorem cleanupAmbiguousLaunch_rule {launchErr : Err} (hlease : entry.leaseID = leaseID) (hid : entry.runnerID ≠ 0)
    (hforfeit : entry.budgetDisposition = .forfeitReservation) (hpermanent : launchErr.permanent = true)
    (h : Held charged entry.runnerName (· = entry.runnerID) w) :
    Safe (logic leaseID) (s.cleanupAmbiguousLaunch entry launchErr) (Cleanup (Done charged entry.runnerName)) w := by
  simp only [Err.permanent, Bool.and_eq_true, Option.isNone_iff_eq_none] at hpermanent
  obtain ⟨⟨⟨⟨-, -⟩, hunnamed⟩, -⟩, hother⟩ := hpermanent
  simp only [Scaler.cleanupAmbiguousLaunch, Scaler.cleanupPartialWorker, hunnamed, Option.filter_none, Prog.safe_bind, Prog.safe_pure,
    Scaler.cleanupListedWorkers]
  refine ask_rule fun choice answer w₁ w₂ hrefusing hexec hrely => ?_
  have h₂ := (h.sameBut (World.exec_sameBut hexec) (by simp [Call.part]) (by simp [Call.part])).changed hrely
  obtain rfl := World.exec_inventory hexec
  cases answer with
  | error failure => exact hrefusing.elim
  | ok workers =>
    subst hlease
    simp only [forEach_cleanupListedWorker hrefusing, Prog.safe_bind, Prog.safe_pure]
    refine (finishRetirement_rule rfl hid hforfeit h₂).mono fun r w₃ h₃ => ?_
    cases r with
    | none => exact h₃
    | some failure =>
      change Err.asLaunchRejected _ = none
      rw [Err.asLaunchRejected_join, hother, Err.asLaunchRejected_wrap]
      exact h₃

/-! ### The launch -/

theorem failedLaunch_rule {launchErr : Err} (hlease : entry.leaseID = leaseID) (hid : entry.runnerID ≠ 0)
    (hforfeit : entry.budgetDisposition = .forfeitReservation) (hpermanent : launchErr.permanent = true)
    (h : Held charged entry.runnerName (· = entry.runnerID) w) :
    Safe (logic leaseID) (s.failedLaunch entry launchErr) (fun r => Outcome charged entry.runnerName r.2) w := by
  have hcapacity : launchErr.isCapacity = false := by
    simp only [Err.permanent, Bool.and_eq_true, Bool.not_eq_true'] at hpermanent
    exact hpermanent.1.1.1.2
  simp only [Scaler.failedLaunch, hcapacity, Bool.false_eq_true, if_false, reportWhen]
  have hreport : Safe (logic leaseID) (reportWhen launchErr.classifyLaunchFailure.asLaunchRejected.isNone (.degraded "provider_launch_failed"))
      (fun _ => Held charged entry.runnerName (· = entry.runnerID)) w := by
    unfold reportWhen
    split
    · exact report_keeps (reports_report _) h
    · exact h
  refine hreport.bind fun _ w₁ h₁ => (cleanupAmbiguousLaunch_rule hlease hid hforfeit hpermanent h₁).bind fun r w₂ h₂ => ?_
  cases r with
  | none => exact (report_done reports_reportBudget h₂).bind fun _ _ h₃ _ _ _ => h₃
  | some failure => exact outcome_of_other h₂

theorem launchWorker_rule {tier : Tier} {jit : JitRunnerConfig} (hlease : entry.leaseID = leaseID)
    (hid : entry.runnerID ≠ 0) (hforfeit : entry.budgetDisposition = .forfeitReservation)
    (h : Held charged entry.runnerName (· = entry.runnerID) w) :
    Safe (logic leaseID) (s.launchWorker tier entry jit) (fun r => Outcome charged entry.runnerName r.2) w := by
  unfold Scaler.launchWorker
  have htime {w : World} (h : Held charged entry.runnerName (· = entry.runnerID) w) :
      Safe (logic leaseID) time (fun _ => Held charged entry.runnerName (· = entry.runnerID)) w :=
    report_keeps ⟨.inl rfl, fun _ => trivial⟩ h
  refine (report_keeps (reports_report _) h).bind fun _ w₁ h₁ => (htime h₁).bind fun now w₂ h₂ => ?_
  refine (Prog.safe_bind _ _ _ _).mpr (ask_rule fun choice answer w₃ w₄ hrefusing hexec hrely => ?_)
  have h₄ := (h₂.sameBut (World.exec_sameBut hexec) (by simp [Call.part]) (by simp [Call.part])).changed hrely
  obtain ⟨created, rfl, -⟩ := World.exec_launch hexec
  refine (report_keeps (reports_report _) h₄).bind fun _ w₅ h₅ => ?_
  cases answer with
  | ok worker => exact hrefusing.elim
  | error failure => exact failedLaunch_rule hlease hid hforfeit hrefusing h₅

theorem put_answer {q : RetirementQueue} {failure : Err} (h : (q.put entry .ok).1 = some failure) :
    failure.asLaunchRejected = none := by
  have hinvalid : ∀ failure, validateRetirementEntry entry = some failure → failure.asLaunchRejected = none := by
    intro failure hfailure
    unfold validateRetirementEntry at hfailure
    split at hfailure
    · exact Option.some.inj hfailure ▸ rfl
    · split at hfailure
      · exact Option.some.inj hfailure ▸ rfl
      · simp at hfailure
  have hrefused : ∀ previous failure, RetirementQueue.refusal previous entry = some failure → failure.asLaunchRejected = none := by
    intro previous failure hfailure
    unfold RetirementQueue.refusal at hfailure
    split at hfailure
    · exact Option.some.inj hfailure ▸ rfl
    · split at hfailure
      · exact Option.some.inj hfailure ▸ rfl
      · simp at hfailure
  unfold RetirementQueue.put at h
  split at h
  · rename_i hfailure
    exact Option.some.inj h ▸ hinvalid _ hfailure
  · split at h
    · simp [RetirementQueue.persist, Disk.failure] at h
    · split at h
      · rename_i hfailure
        exact Option.some.inj h ▸ hrefused _ _ hfailure
      · simp [RetirementQueue.persist, Disk.failure] at h

theorem put_rule (h : Held charged name ids w) :
    Safe (logic leaseID) (ask (.put entry)) (fun r w' => Cleanup (fun _ => True) r w' ∧ Held charged name ids w') w := by
  refine ask_rule fun choice answer w₁ w' hrefusing hexec hrely => ?_
  refine ⟨?_, (h.sameBut (World.exec_sameBut hexec) (by simp [Call.part]) (by simp [Call.part])).changed hrely⟩
  obtain ⟨w₀, heffect, -⟩ := World.exec_eq_some_iff.mp hexec
  obtain ⟨disk, rfl, hjournal⟩ := World.onDisk_eq_some_iff.mp heffect
  obtain rfl : disk = .ok := hrefusing
  cases answer with
  | none => trivial
  | some failure => exact put_answer (Prod.mk.inj hjournal).1

theorem generateJitRunnerConfig_rule {scaleSetID : Int} (h : Held charged name (fun _ => False) w) :
    Safe (logic leaseID) (ask (.generateJitRunnerConfig name scaleSetID)) (fun r w' => ∃ jit, r = .ok (some jit) ∧
      Held charged name (fun id => ∃ runner, jit.runner = some runner ∧ runner.id = id) w') w := by
  refine ask_rule fun choice answer w₁ w' hrefusing hexec hrely => ?_
  obtain ⟨w₀, heffect, rfl⟩ := World.exec_eq_some_iff.mp hexec
  cases choice <;> simp only [World.effect, Option.some.injEq, Prod.mk.injEq, reduceCtorEq] at heffect
  obtain ⟨rfl, hw₀⟩ := heffect
  rename_i answer registered
  rcases answer with failure | _ | jit
  · exact hrefusing.elim
  · exact hrefusing.elim
  · have hregistered : registered = jit.runner := hrefusing
    have hheld : Held charged name (fun id => ∃ runner, jit.runner = some runner ∧ runner.id = id) w₀ := by
      subst hw₀
      refine ⟨h.charged, fun runner hrunner hname => ?_⟩
      rcases List.mem_append.mp hrunner with hnew | hold
      · exact ⟨runner, by rw [← hregistered]; simpa using hnew, rfl⟩
      · exact (h.registered runner hold hname).elim
    exact ⟨jit, rfl, (hheld.record _).changed hrely⟩

theorem resolveRegistration_rule {jit : JitRunnerConfig}
    (h : Held charged name (fun id => ∃ runner, jit.runner = some runner ∧ runner.id = id) w) :
    Safe (logic leaseID) (Scaler.resolveRegistration name jit) (fun r w' => ∃ registration, r = .ok registration ∧
      ∀ runner, registration = some runner → Held charged name (· = runner.id) w') w := by
  have honly {w' : World} {id : Int} (h' : Held charged name (fun id => ∃ runner, jit.runner = some runner ∧ runner.id = id) w')
      (hid : ∃ runner, jit.runner = some runner ∧ runner.id = id) : Held charged name (· = id) w' := by
    refine ⟨h'.charged, fun runner hrunner hname => ?_⟩
    obtain ⟨first, hfirst, hrunnerID⟩ := h'.registered runner hrunner hname
    obtain ⟨second, hsecond, rfl⟩ := hid
    obtain rfl := Option.some.inj (hfirst.symm.trans hsecond)
    exact hrunnerID.symm
  unfold Scaler.resolveRegistration
  split
  · rename_i runner hrunner
    refine ⟨some runner, rfl, ?_⟩
    rintro _ ⟨⟩
    exact honly h ⟨runner, (Option.filter_eq_some_iff.mp hrunner).1, rfl⟩
  · refine (getRunnerByName_rule h).mono fun r w' hresult => ?_
    obtain ⟨found, hr, h', _, hfound⟩ := hresult
    refine ⟨found, hr, fun runner hrunner => ?_⟩
    exact honly h' (hfound runner hrunner)

theorem registerWorker_rule {tier : Tier} (hlease : entry.leaseID = leaseID)
    (hforfeit : entry.budgetDisposition = .forfeitReservation) (h : Held charged entry.runnerName (fun _ => False) w) :
    Safe (logic leaseID) (s.registerWorker tier entry) (fun r => Outcome charged entry.runnerName r.2) w := by
  unfold Scaler.registerWorker
  refine (generateJitRunnerConfig_rule h).bind fun r w₁ hresult => ?_
  obtain ⟨jit, hr, h₁⟩ := hresult
  subst hr
  refine (resolveRegistration_rule h₁).bind fun r w₂ hresult => ?_
  obtain ⟨registration, hr, h₂⟩ := hresult
  subst hr
  dsimp only
  split
  · have hnote : Safe (logic leaseID) (ask (.note (.identityMismatch entry.leaseID))) (fun _ _ => True) w₂ :=
      ask_rule fun _ _ _ _ _ _ _ => trivial
    exact hnote.bind fun _ _ _ => outcome_of_other rfl
  · rename_i runner hvalid
    obtain ⟨hregistration, hrunner⟩ := Option.filter_eq_some_iff.mp hvalid
    have hid : runner.id ≠ 0 := by
      simp only [Bool.and_eq_true, decide_eq_true_eq] at hrunner
      omega
    refine (put_rule (h₂ runner hregistration)).bind fun r w₃ hresult => ?_
    obtain ⟨hr, h₃⟩ := hresult
    cases r with
    | none => exact launchWorker_rule hlease hid hforfeit h₃
    | some failure => exact (report_keeps (reports_report _) h₃).bind fun _ _ _ => outcome_of_other hr

theorem release_rule : Safe (logic leaseID) (ask (.release leaseID)) (fun r _ => r = none) w := by
  refine ask_rule fun choice answer w₁ w' hrefusing hexec hrely => ?_
  obtain ⟨w₀, heffect, -⟩ := World.exec_eq_some_iff.mp hexec
  obtain ⟨disk, rfl, hledger⟩ := World.onDisk_eq_some_iff.mp heffect
  obtain rfl : disk = .ok := hrefusing
  rw [← (Prod.mk.inj hledger).1]
  unfold UsageBudget.release
  split <;> rfl

theorem admittedWorker_rule {route : ScaleSetRoute} {tier : Tier} (h : Held charged (runnerName leaseID) (fun _ => True) w) :
    Safe (logic leaseID) (s.admittedWorker route tier leaseID) (fun r => Outcome charged (runnerName leaseID) r.2) w := by
  unfold Scaler.admittedWorker
  refine (getRunnerByName_rule h).bind fun r w₁ hresult => ?_
  obtain ⟨found, hr, h₁, hnone, _⟩ := hresult
  subst hr
  cases found with
  | some runner =>
    refine release_rule.bind ?_
    rintro _ w₂ rfl
    exact outcome_of_other rfl
  | none =>
    have htime {w : World} (h : Held charged (runnerName leaseID) (fun _ => False) w) :
        Safe (logic leaseID) time (fun _ => Held charged (runnerName leaseID) fun _ => False) w :=
      report_keeps ⟨.inl rfl, fun _ => trivial⟩ h
    refine (htime (hnone rfl)).bind fun now w₂ h₂ => (put_rule h₂).bind fun r w₃ hresult => ?_
    obtain ⟨hr, h₃⟩ := hresult
    cases r with
    | none =>
      refine (report_keeps reports_reportRetirements h₃).bind fun _ w₄ h₄ => ?_
      exact registerWorker_rule rfl rfl h₄
    | some failure =>
      refine (report_keeps (reports_report _) h₃).bind fun _ w₄ h₄ => (htime h₄).bind fun now w₅ h₅ => (forfeit_rule h₅).bind ?_
      rintro _ w₆ ⟨rfl, -⟩
      exact outcome_of_other hr

/-- With a disk that works, `reserve` refuses by a plain text, or charges the whole reservation when it admits the lease. -/
theorem reserve_answer (b : UsageBudget) (leaseID : String) (now maximum : Int) :
    match (b.reserve leaseID now maximum none).result with
    | .error failure => failure.asLaunchRejected = none
    | .ok (true, _) => charges (b.reserve leaseID now maximum none).budget =
        charges (b.prune now) ++ [(leaseID, Duration.seconds b.reservation)]
    | .ok (false, _) => True := by
  unfold UsageBudget.reserve
  simp only
  split_ifs
  · rfl
  · rfl
  · simp [charges, UsageBudget.reserved, UsageBudget.prune]
  · trivial

theorem reserve_rule (name : String) {now maximum : Int} : Safe (logic leaseID) (ask (.reserve leaseID now maximum)) (fun r w' =>
    match r with
    | .error failure => failure.asLaunchRejected = none
    | .ok (true, _) => Held (charges (w.budget.prune now) ++ [(leaseID, Duration.seconds w.budget.reservation)]) name (fun _ => True) w'
    | .ok (false, _) => True) w := by
  refine ask_rule fun choice answer w₁ w' hrefusing hexec hrely => ?_
  obtain ⟨w₀, heffect, rfl⟩ := World.exec_eq_some_iff.mp hexec
  obtain ⟨disk, rfl, hledger⟩ := World.onDisk_eq_some_iff.mp heffect
  obtain rfl : disk = .ok := hrefusing
  obtain ⟨hanswer, rfl⟩ := Prod.mk.inj hledger
  have hafter : w'.budget = (w.budget.reserve leaseID now maximum none).budget := (Rejection.changed hrely).1
  have hcharge := reserve_answer w.budget leaseID now maximum
  rw [show (w.budget.reserve leaseID now maximum none).result = answer from hanswer] at hcharge
  match answer, hcharge with
  | .error failure, hcharge => exact hcharge
  | .ok (true, _), hcharge => exact ⟨by rw [hafter, hcharge], fun _ _ _ => trivial⟩
  | .ok (false, _), _ => trivial

theorem startWorker_rule {route : ScaleSetRoute} {spare : Bool} :
    Safe (logic leaseID) (s.startWorker route spare leaseID) (fun r =>
      Outcome (charges (w.budget.prune w.clock) ++ [(leaseID, Duration.seconds w.budget.reservation)]) (runnerName leaseID) r.2) w := by
  unfold Scaler.startWorker
  have htime : Safe (logic leaseID) time (fun now w' => now = w.clock ∧ w'.budget = w.budget) w := by
    refine ask_rule fun choice answer w₁ w' _ hexec hrely => ?_
    obtain ⟨rfl, rfl⟩ := World.exec_of_effect rfl hexec
    exact ⟨rfl, (Rejection.changed hrely).1⟩
  refine htime.bind fun now w₁ hresult => ?_
  obtain ⟨hnow, hbudget⟩ := hresult
  refine (reserve_rule (runnerName leaseID)).bind fun r w₂ hr => ?_
  rw [hnow, hbudget] at hr
  rcases r with failure | ⟨_ | _, remaining⟩
  · have hreport : Safe (logic leaseID) (report (.degraded "usage_budget_write_failed")) (fun _ _ => True) w₂ :=
      ask_rule fun _ _ _ _ _ _ _ => trivial
    exact hreport.bind fun _ _ _ => outcome_of_other hr
  · have hreport : Safe (logic leaseID) reportBudget (fun _ _ => True) w₂ :=
      reports_reportBudget.safe (fun _ => True) trivial (fun _ _ _ _ => trivial) fun _ _ _ _ _ _ _ _ _ => trivial
    refine hreport.bind fun _ w₃ _ => ?_
    rintro failure ⟨⟩
  · refine (report_keeps reports_reportBudget hr).bind fun _ w₃ h₃ => ?_
    exact admittedWorker_rule h₃

end Rules

theorem usedSeconds_eq (b : UsageBudget) : b.usedSeconds = ((charges b).map Prod.snd).sum := by
  rw [charges, List.map_map]
  rfl

/-- A launch rejection leaves the whole reservation charged in the ledger; the journal entry and the registration are gone. -/
theorem rejected_launch_keeps_its_charge (s : Scaler) (route : ScaleSetRoute) (spare : Bool) (leaseID : String) (w w' : World)
    (started : Bool) (failure : Err) (hreservation : 0 < w.budget.reservation)
    (hrun : Returns (logic leaseID) (s.startWorker route spare leaseID) w (started, some failure) w')
    (hrejected : failure.asLaunchRejected.isSome = true) :
    w'.budget.usedSeconds = (w.budget.prune w.clock).usedSeconds + Duration.seconds w.budget.reservation ∧
      0 < Duration.seconds w.budget.reservation ∧
      (∃ entry ∈ w'.budget.entries, entry.leaseID = leaseID ∧ entry.seconds = Duration.seconds w.budget.reservation) ∧
      w'.journal.entries.get (runnerName leaseID) = none ∧
      ∀ runner ∈ w'.registrations, runner.name ≠ runnerName leaseID := by
  obtain ⟨hheld, hjournal⟩ := startWorker_rule.returns hrun failure rfl hrejected
  refine ⟨?_, Duration.seconds_pos hreservation, ?_, hjournal, fun runner hrunner hname => hheld.registered runner hrunner hname⟩
  · rw [usedSeconds_eq, usedSeconds_eq, hheld.charged]
    simp
  · have hmem : (leaseID, Duration.seconds w.budget.reservation) ∈ charges w'.budget := by
      rw [hheld.charged]
      simp
    obtain ⟨entry, hentry, heq⟩ := List.mem_map.mp hmem
    obtain ⟨hlease, hseconds⟩ := Prod.mk.inj heq
    exact ⟨entry, hentry, hlease, hseconds⟩

/-! ### A refused launch of the small deployment -/

def refuse (leaseID : String) (op : Call) (choice : Choice) (w : World) : Option (op.Ans × World) :=
  if Refusing leaseID op choice w then World.exec op choice w else none

theorem returns_of_refuse {leaseID : String} {α : Type} {p : Script α} {choices : List Choice} {w w' : World} {a : α}
    (h : play (refuse leaseID) choices p w = some (a, w')) : Returns (logic leaseID) p w a w' := by
  refine Prog.returns_of_play (fun op choice w answer w' hexec => ?_) (fun w => show ∃ changes : List EnvChange, w = changes.foldl World.change w from ⟨[], rfl⟩) h
  unfold refuse at hexec
  split at hexec
  · rename_i hrefusing
    exact ⟨choice, hrefusing, hexec⟩
  · simp at hexec

def refusal : List Choice :=
  [.none, Demo.written, .none, .none, .none, .runner (.ok none), .none, Demo.written, .none, .none, .none, .none,
    .jit (.ok (some { runner := some Demo.registration })) (some Demo.registration), Demo.written, .none, .none,
    .launch (.error (.status "fly" 422 "unprocessable")) none, .none, Demo.listed [], .runner (.ok (some Demo.registration)),
    .removed none true, .none, Demo.written, .none, Demo.written, .none, .none, .none, .none, .none, .none, .none]

theorem rejected_launch_keeps_its_charge_of_an_hour : ∃ (w' : World) (started : Bool) (failure : Err),
    failure.asLaunchRejected = some "fly_status_422" ∧
    Returns (logic Demo.lease) (Demo.scaler.startWorker Demo.scaler.mainRoute false Demo.lease) Demo.start.world (started, some failure) w' ∧
    w'.budget.usedSeconds = (Demo.start.world.budget.prune Demo.start.world.clock).usedSeconds + 3600 := by
  have hplay : ∃ r ∈ play (refuse Demo.lease) refusal (Demo.scaler.startWorker Demo.scaler.mainRoute false Demo.lease) Demo.start.world,
      ∃ failure ∈ r.1.2, failure.asLaunchRejected = some "fly_status_422" := by decide +kernel
  obtain ⟨⟨⟨started, result⟩, w'⟩, hr, failure, hresult, hrejected⟩ := hplay
  obtain rfl : result = some failure := hresult
  have hrun := returns_of_refuse hr
  exact ⟨w', started, failure, hrejected, hrun, (rejected_launch_keeps_its_charge Demo.scaler _ _ _ _ w' started failure (by decide) hrun
    (by rw [hrejected]; rfl)).1⟩

/-- A refused launch on an empty ledger: an hour is charged to the lease. -/
theorem rejected_launch_is_charged : ∃ (w' : World) (started : Bool) (failure : Err),
    Returns (logic Demo.lease) (Demo.scaler.startWorker Demo.scaler.mainRoute false Demo.lease) Demo.start.world (started, some failure) w' ∧
    failure.asLaunchRejected = some "fly_status_422" ∧
    (Demo.start.world.budget.prune Demo.start.world.clock).usedSeconds = 0 ∧ w'.budget.usedSeconds = 3600 ∧
    w'.budget.entries.map (·.leaseID) = [Demo.lease] := by
  have hplay : ∃ r ∈ play (refuse Demo.lease) refusal (Demo.scaler.startWorker Demo.scaler.mainRoute false Demo.lease) Demo.start.world,
      ∃ failure ∈ r.1.2, failure.asLaunchRejected = some "fly_status_422" ∧
        (Demo.start.world.budget.prune Demo.start.world.clock).usedSeconds = 0 ∧ r.2.budget.usedSeconds = 3600 ∧
        r.2.budget.entries.map (·.leaseID) = [Demo.lease] := by decide +kernel
  obtain ⟨⟨⟨started, result⟩, w'⟩, hr, failure, hresult, hfacts⟩ := hplay
  obtain rfl : result = some failure := hresult
  exact ⟨w', started, failure, returns_of_refuse hr, hfacts⟩

end Rejection

end RunnerYard
