import RunnerYard.Controller.Retirement

/-!
# Launches, for one lease

A launch thread draws a lease that nobody has mentioned, journals it, registers a runner, and launches its worker. Until the launch is committed the lease has no record in local state and its entry stays pending; a thread that fails leaves either that, or a lease whose worker is gone. With it the outline of `Custody` meets the laws of a pool of such threads.
-/

namespace RunnerYard

open Interaction
open Interaction.Prog (Safe All forEach)

namespace Custody

variable {s : Scaler} {I : Identity} {exact : Prop} {leaseID : String}

def NoRecord (leaseID : String) (w : World) : Prop := w.state.workers.get (runnerName leaseID) = none

variable {w : World} {entry : RetirementEntry}

theorem NoRecord.closed (h : NoRecord leaseID w) : Closed leaseID w := by
  intro record hrecord
  rw [h] at hrecord
  simp at hrecord

theorem Drift.noRecord {w' : World} (h : Drift leaseID w w') (hnone : NoRecord leaseID w) : NoRecord leaseID w' :=
  h.record.trans hnone

structure Intent (leaseID : String) (entry : RetirementEntry) : Prop where
  name : entry.runnerName = runnerName leaseID
  lease : entry.leaseID = leaseID
  disposition : entry.budgetDisposition = .forfeitReservation

theorem Intent.entryOk (h : Intent leaseID entry) {log : List LogEntry}
    (hnever : NeverRemoved (runnerName leaseID) log) : EntryOk s I entry log := by
  refine ⟨h.lease ▸ h.name, ?_⟩
  rw [h.disposition, h.lease]
  exact hnever

structure Uncommitted (leaseID : String) (w : World) : Prop where
  noRecord : NoRecord leaseID w
  neverRemoved : NeverRemoved (runnerName leaseID) w.log

theorem Drift.uncommitted {w' : World} (h : Drift leaseID w w') (hpre : Uncommitted leaseID w) : Uncommitted leaseID w' :=
  ⟨h.noRecord hpre.noRecord, h.neverRemoved hpre.neverRemoved⟩

/-! ### Cleanup -/

theorem own_charge (op : Call) (hpart : op.part = .ledger) (hloud : op.loud = false) (habout : op.about = some (runnerName leaseID))
    (hguard : Guard s I exact op w) (hnone : NoRecord leaseID w) :
    Safe (Own s I exact leaseID) (ask op) (fun _ w' => Inv s I w' ∧ NoRecord leaseID w' ∧ (Gone leaseID w → Gone leaseID w')) w :=
  (own_ledger op hpart hloud habout hguard).mono fun _ _ h => ⟨h.1, h.2.2.2.1.trans hnone, h.2.2.1⟩

theorem cleanupRejectedLaunch_own (hentry : Intent leaseID entry) (hinv : Inv s I w)
    (hput : entry.runnerID = 0 → EntryOk s I entry w.log) (hnone : NoRecord leaseID w) (hgone : exact → Gone leaseID w) :
    Safe (Own s I exact leaseID) (s.cleanupRejectedLaunch entry) (fun _ w' => Inv s I w' ∧ NoRecord leaseID w') w := by
  have habout : some (runnerName entry.leaseID) = some (runnerName leaseID) := by rw [hentry.lease]
  unfold Scaler.cleanupRejectedLaunch
  refine (removeRunnerRegistration_own hentry.lease hinv hput).bind fun failure w₁ hresult => ?_
  obtain ⟨hinv₁, htended₁⟩ := hresult
  have hnone₁ : NoRecord leaseID w₁ := htended₁.noRecord hnone
  cases failure with
  | some failure =>
    refine (own_skip rfl w₁).bind fun _ w₂ hresult => ?_
    obtain ⟨hdrift₂, hinv₂⟩ := hresult
    exact ⟨hinv₂, hdrift₂.noRecord hnone₁⟩
  | none =>
    refine (own_charge (.release entry.leaseID) rfl rfl habout trivial hnone₁).bind fun failure w₂ hresult => ?_
    obtain ⟨hinv₂, hnone₂, hgone₂⟩ := hresult
    cases failure with
    | some failure =>
      refine (own_skip rfl w₂).bind fun _ w₃ hresult => ?_
      obtain ⟨hdrift₃, hinv₃⟩ := hresult
      exact ⟨hinv₃, hdrift₃.noRecord hnone₂⟩
    | none =>
      refine (own_remove hentry.name hinv₂ fun hexact => Or.inr (hgone₂ (htended₁.gone (hgone hexact)))).bind
        fun failure w₃ hresult => ?_
      obtain ⟨hinv₃, htended₃⟩ := hresult
      have hnone₃ : NoRecord leaseID w₃ := htended₃.noRecord hnone₂
      cases failure with
      | some failure =>
        refine (own_skip rfl w₃).bind fun _ w₄ hresult => ?_
        obtain ⟨hdrift₄, hinv₄⟩ := hresult
        exact ⟨hinv₄, hdrift₄.noRecord hnone₃⟩
      | none =>
        refine (own_all (quiet_inward calm_reportRetirements.inward) hinv₃).bind fun _ w₄ hresult => ?_
        obtain ⟨hdrift₄, hinv₄⟩ := hresult
        exact ⟨hinv₄, hdrift₄.noRecord hnone₃⟩

theorem cleanupJITGenerationFailure_own (hentry : Intent leaseID entry) (failure : Err)
    (hpre : Uncommitted leaseID w) (hgone : Gone leaseID w) :
    Safe (Own s I exact leaseID) (s.cleanupJITGenerationFailure entry failure) (fun _ w' => Inv s I w' ∧ NoRecord leaseID w') w := by
  have habout : some (runnerName entry.leaseID) = some (runnerName leaseID) := by rw [hentry.lease]
  unfold Scaler.cleanupJITGenerationFailure
  refine (own_skip rfl w).bind fun answer w₁ hresult => ?_
  obtain ⟨hdrift₁, hinv₁⟩ := hresult
  have hpre₁ := hdrift₁.uncommitted hpre
  match answer with
  | .error failure => exact ⟨hinv₁, hpre₁.noRecord⟩
  | .ok none =>
    refine (own_remove hentry.name hinv₁ fun _ => Or.inr (hdrift₁.gone hgone)).bind fun removeErr w₂ hresult => ?_
    obtain ⟨hinv₂, htended₂⟩ := hresult
    have hnone₂ : NoRecord leaseID w₂ := htended₂.noRecord hpre₁.noRecord
    cases removeErr with
    | some failure => exact ⟨hinv₂, hnone₂⟩
    | none =>
      refine (own_all (quiet_inward calm_reportRetirements.inward) hinv₂).bind fun _ w₃ hresult => ?_
      obtain ⟨hdrift₃, hinv₃⟩ := hresult
      exact (own_charge (.release entry.leaseID) rfl rfl habout trivial (hdrift₃.noRecord hnone₂)).bind
        fun _ w₄ hresult => ⟨hresult.1, hresult.2.1⟩
  | .ok (some runner) =>
    refine (own_all (quiet_inward (calm_identityCheck _ _).inward) hinv₁).bind fun mismatch w₂ hresult => ?_
    obtain ⟨hdrift₂, hinv₂⟩ := hresult
    have hpre₂ := hdrift₂.uncommitted hpre₁
    cases mismatch with
    | some failure => exact ⟨hinv₂, hpre₂.noRecord⟩
    | none =>
      have hbound : Intent leaseID { entry with runnerID := runner.id } := ⟨hentry.name, hentry.lease, hentry.disposition⟩
      refine Safe.bind (own_put hbound.lease (hbound.entryOk hpre₂.neverRemoved)) fun putErr w₃ hresult => ?_
      obtain ⟨hinv₃, htended₃, hok₃, _⟩ := hresult
      have hnone₃ : NoRecord leaseID w₃ := htended₃.noRecord hpre₂.noRecord
      cases putErr with
      | some failure => exact ⟨hinv₃, hnone₃⟩
      | none =>
        refine Safe.bind (finishRetirement_own hbound.name hbound.lease hinv₃ (fun _ => hok₃) (by simp)
          fun _ _ => htended₃.gone ((hdrift₁.trans hdrift₂).gone hgone)) fun finishErr w₄ hresult => ?_
        obtain ⟨hinv₄, htended₄⟩ := hresult
        exact ⟨hinv₄, htended₄.noRecord hnone₃⟩

/-- At most one worker carries the lease; while none was cleaned up, nothing was done. -/
theorem cleanupListedWorkers_own (hentry : Intent leaseID entry) (hbound : entry.runnerID ≠ 0) (launchErr : Err)
    (partialWorker : Option Worker) (hnone : NoRecord leaseID w)
    (hfree : (∀ worker : Worker, worker.Carries I leaseID → partialWorker.any (·.id = worker.id) = true) ∨
      NeverRemoved (runnerName leaseID) w.log) :
    Safe (Own s I exact leaseID) (s.cleanupListedWorkers entry launchErr partialWorker)
      (fun _ w' => Inv s I w' ∧ NoRecord leaseID w') w := by
  unfold Scaler.cleanupListedWorkers
  rw [Prog.safe_bind]
  refine own_quiet rfl fun choice answer w₀ w₁ hallowed hexec hown hdrift hinv₁ => ?_
  have hdrift₁ := hown.trans hdrift
  have hnone₁ := hdrift₁.noRecord hnone
  cases answer with
  | error failure => exact ⟨hinv₁, hnone₁⟩
  | ok workers =>
    obtain ⟨hgenuine, hnodup⟩ := inventory_contract hallowed hexec
    have hclean : exact → ∀ worker ∈ workers, partialWorker.any (·.id = worker.id) = false := by
      intro hexact worker hworker
      obtain rfl := World.exec_inventory hexec
      have hclean := (hallowed.2.2 hexact).2
      cases partialWorker with
      | none => rfl
      | some named =>
        have hne : worker.id ≠ named.id := hclean worker hworker
        simpa using hne.symm
    have hloop : Safe (Own s I exact leaseID) (forEach (s.cleanupListedWorker entry launchErr partialWorker) workers false)
        (fun r w' => Inv s I w' ∧ NoRecord leaseID w' ∧ (r = (false, none) → exact → Gone leaseID w')) w₁ := by
      refine Prog.safe_forEach (fun rest cleaned w' => Inv s I w' ∧ NoRecord leaseID w' ∧
        ∃ passed, workers = passed ++ rest ∧ (cleaned = true → ∀ worker ∈ rest, worker.leaseID ≠ leaseID) ∧
          (cleaned = false → Drift leaseID w₁ w' ∧ (exact → ∀ worker ∈ passed, worker.leaseID ≠ leaseID))) ?_ ?_
        ⟨hinv₁, hnone₁, [], rfl, by simp, fun _ => ⟨Drift.refl leaseID w₁, by simp⟩⟩
      · rintro worker rest cleaned w' ⟨hinv', hnone', passed, hpassed, hcleaned, huncleaned⟩
        have hmem : worker ∈ workers := hpassed ▸ List.mem_append_right passed List.mem_cons_self
        have hpassed' : workers = (passed ++ [worker]) ++ rest := by rw [hpassed, List.append_assoc]; rfl
        unfold Scaler.cleanupListedWorker
        split
        · rename_i hskip
          refine ⟨hinv', hnone', passed ++ [worker], hpassed', fun h other hother => ?_, fun h => ⟨(huncleaned h).1, fun hexact => ?_⟩⟩
          · exact hcleaned h other (List.mem_cons_of_mem worker hother)
          · intro other hother
            rcases List.mem_append.mp hother with hother | hother
            · exact (huncleaned h).2 hexact other hother
            · rw [List.mem_singleton.mp hother]
              simpa [hclean hexact worker hmem, hentry.lease] using hskip
        · rename_i hkeep
          simp only [hentry.lease, Bool.or_eq_true, decide_eq_true_eq, not_or, not_not] at hkeep
          obtain ⟨hlease, hunnamed⟩ := hkeep
          have hcarries : worker.Carries I leaseID := hlease ▸ hgenuine worker hmem
          have hfalse : cleaned = false := by
            by_contra htrue
            exact hcleaned (by simpa using htrue) worker List.mem_cons_self hlease
          have hnever : NeverRemoved (runnerName leaseID) w'.log := by
            rcases hfree with hfree | hnever
            · exact absurd (hfree worker hcarries) hunnamed
            · exact (hdrift₁.trans (huncleaned hfalse).1).neverRemoved hnever
          refine Safe.bind (retireWorker_own hcarries (show Warrant s I leaseID w'.log .forfeitReservation from hnever) (by simp)) fun failure w₂ hresult => ?_
          obtain ⟨hinv₂, htended₂⟩ := hresult
          have hnone₂ : NoRecord leaseID w₂ := htended₂.noRecord hnone'
          cases failure with
          | some failure => exact ⟨hinv₂, hnone₂, by simp⟩
          | none =>
            refine ⟨hinv₂, hnone₂, passed ++ [worker], hpassed', fun _ other hother heq => ?_, by simp⟩
            -- The inventory lists a lease once.
            rw [hpassed', List.map_append, List.nodup_append] at hnodup
            refine hnodup.2.2 worker.leaseID ?_ other.leaseID (List.mem_map_of_mem hother) (hlease.trans heq.symm)
            exact List.mem_map_of_mem (List.mem_append_right passed List.mem_cons_self)
      · rintro cleaned w' ⟨hinv', hnone', passed, hpassed, -, huncleaned⟩
        refine ⟨hinv', hnone', fun hr hexact => ?_⟩
        obtain rfl : cleaned = false := by simpa using hr
        obtain ⟨hdrift', hlist⟩ := huncleaned rfl
        rw [List.append_nil] at hpassed
        exact ((hown.trans hdrift).trans hdrift').gone (gone_of_inventory hallowed hexec hexact (hpassed ▸ hlist hexact))
    refine hloop.bind fun r w₂ hresult => ?_
    obtain ⟨hinv₂, hnone₂, hgone₂⟩ := hresult
    obtain ⟨cleaned, failed⟩ := r
    cases failed with
    | some failure => cases cleaned <;> exact ⟨hinv₂, hnone₂⟩
    | none =>
      cases cleaned with
      | true => exact ⟨hinv₂, hnone₂⟩
      | false =>
        refine Safe.bind (finishRetirement_own hentry.name hentry.lease hinv₂ (fun hzero => absurd hzero hbound) (by simp)
          fun _ hexact => hgone₂ rfl hexact) fun failure w₃ hresult => ?_
        obtain ⟨hinv₃, htended₃⟩ := hresult
        have hnone₃ : NoRecord leaseID w₃ := htended₃.noRecord hnone₂
        cases failure <;> exact ⟨hinv₃, hnone₃⟩

theorem cleanupAmbiguousLaunch_own (hentry : Intent leaseID entry) (hbound : entry.runnerID ≠ 0)
    {launchErr : Err} (hcarried : ∀ worker, launchErr.asPartialLaunch = some worker → worker.id ≠ "" → worker.Carries I leaseID)
    (hinv : Inv s I w) (hpre : Uncommitted leaseID w) :
    Safe (Own s I exact leaseID) (s.cleanupAmbiguousLaunch entry launchErr) (fun _ w' => Inv s I w' ∧ NoRecord leaseID w') w := by
  unfold Scaler.cleanupAmbiguousLaunch
  have hnamed : Safe (Own s I exact leaseID) (s.cleanupPartialWorker launchErr) (fun failure w' => Inv s I w' ∧ NoRecord leaseID w' ∧
      (failure = none → (∀ worker : Worker, worker.Carries I leaseID → launchErr.asPartialLaunch.any (·.id = worker.id) = true) ∨
        NeverRemoved (runnerName leaseID) w'.log)) w := by
    unfold Scaler.cleanupPartialWorker
    split
    · rename_i worker hworker
      obtain ⟨hsome, hid⟩ := Option.filter_eq_some_iff.mp hworker
      have hcarries : worker.Carries I leaseID := hcarried worker hsome (by simpa using hid)
      refine Safe.bind (retireWorker_own hcarries (show Warrant s I leaseID w.log .forfeitReservation from hpre.neverRemoved) (by simp))
        fun failure w₁ hresult => ?_
      obtain ⟨hinv₁, htended₁⟩ := hresult
      have hnone₁ : NoRecord leaseID w₁ := htended₁.noRecord hpre.noRecord
      cases failure with
      | some failure => exact ⟨hinv₁, hnone₁, by simp⟩
      | none =>
        refine ⟨hinv₁, hnone₁, fun _ => Or.inl fun other hother => ?_⟩
        rw [hsome]
        simp [hcarries.id, hother.id]
    · exact ⟨hinv, hpre.noRecord, fun _ => Or.inr hpre.neverRemoved⟩
  refine hnamed.bind fun failure w₁ hresult => ?_
  obtain ⟨hinv₁, hnone₁, hfree₁⟩ := hresult
  cases failure with
  | some failure => exact ⟨hinv₁, hnone₁⟩
  | none => exact cleanupListedWorkers_own hentry hbound launchErr launchErr.asPartialLaunch hnone₁ (hfree₁ rfl)

/-! ### A launch and its thread -/

theorem failedLaunch_own (hentry : Intent leaseID entry) (hbound : entry.runnerID ≠ 0) {launchErr : Err}
    (hcarried : ∀ worker, launchErr.asPartialLaunch = some worker → worker.id ≠ "" → worker.Carries I leaseID)
    (hinv : Inv s I w) (hpre : Uncommitted leaseID w) (hgone : launchErr.isCapacity = true → exact → Gone leaseID w) :
    Safe (Own s I exact leaseID) (s.failedLaunch entry launchErr) (fun _ w' => Inv s I w' ∧ NoRecord leaseID w') w := by
  unfold Scaler.failedLaunch
  split
  · rename_i hcapacity
    refine (cleanupRejectedLaunch_own hentry hinv (fun hzero => absurd hzero hbound) hpre.noRecord (hgone hcapacity)).bind
      fun failure w₁ hresult => ?_
    obtain ⟨hinv₁, hnone₁⟩ := hresult
    cases failure with
    | some failure => exact ⟨hinv₁, hnone₁⟩
    | none =>
      refine (own_all (quiet_inward calm_reportBudget.inward) hinv₁).bind fun _ w₂ hresult => ?_
      obtain ⟨hdrift₂, hinv₂⟩ := hresult
      exact ⟨hinv₂, hdrift₂.noRecord hnone₁⟩
  · refine (own_all (quiet_inward (inward_reportWhen _ _)) hinv).bind fun _ w₁ hresult => ?_
    obtain ⟨hdrift₁, hinv₁⟩ := hresult
    refine (cleanupAmbiguousLaunch_own hentry hbound hcarried hinv₁ (hdrift₁.uncommitted hpre)).bind fun failure w₂ hresult => ?_
    obtain ⟨hinv₂, hnone₂⟩ := hresult
    cases failure with
    | some failure => exact ⟨hinv₂, hnone₂⟩
    | none =>
      refine (own_all (quiet_inward calm_reportBudget.inward) hinv₂).bind fun _ w₃ hresult => ?_
      obtain ⟨hdrift₃, hinv₃⟩ := hresult
      exact ⟨hinv₃, hdrift₃.noRecord hnone₂⟩

theorem covers_of_adopt {adopted : String} {startedAt : Int} {choice : Choice} {w₁ : World} (hinv : Inv s I w)
    (hexec : World.exec (.adopt adopted startedAt) choice w = some (none, w₁)) : Covers adopted w₁ := by
  obtain ⟨w₂, heffect, rfl⟩ := World.exec_eq_some_iff.mp hexec
  simp only [World.effect, World.onDisk_eq_some_iff, World.ledger, Prod.mk.injEq] at heffect
  obtain ⟨disk, -, hnone, rfl⟩ := heffect
  exact covered_adopt hinv.budget hnone w.archive

theorem closed_of_state {op : StateOp} {choice : Choice} {w₁ : World} {answer : (Call.state op).Ans}
    (hexec : World.exec (.state op) choice w = some (answer, w₁)) (hcovers : Covers leaseID w) : Covers leaseID w₁ := by
  obtain ⟨hbudget, -, harchive⟩ := (World.exec_sameBut hexec).ledger (by simp [Call.part])
  unfold Covers
  rw [hbudget, harchive]
  exact hcovers

theorem commitLaunch_own (hentry : Intent leaseID entry) {worker : Worker} (hworker : worker.Carries I leaseID)
    (hpre : Uncommitted leaseID w) :
    Safe (Own s I exact leaseID) (s.commitLaunch entry worker) (fun _ w' => Inv s I w' ∧ Closed leaseID w') w := by
  have habout : some (runnerName entry.leaseID) = some (runnerName leaseID) := by rw [hentry.lease]
  unfold Scaler.commitLaunch
  dsimp only
  generalize hbound : ({ worker with
    runnerID := if worker.runnerID = 0 then entry.runnerID else worker.runnerID
    runnerScaleSetID := if worker.runnerScaleSetID = 0 then entry.runnerScaleSetID else worker.runnerScaleSetID } : Worker) = bound
  have hcarries : bound.Carries I leaseID := hbound ▸ ⟨hworker.lease, hworker.name, hworker.id, hworker.created⟩
  refine (own_ledger (.adopt entry.leaseID worker.createdAt) rfl rfl habout trivial).bind
    fun failure w₁ hresult => ?_
  obtain ⟨hinv₁, ⟨choice, w₀, hexec, _, hinv, hdrift⟩, _, hrecord₁, hnever₁, _⟩ := hresult
  have hpre₁ : Uncommitted leaseID w₁ := ⟨hrecord₁.trans hpre.noRecord, hnever₁ hpre.neverRemoved⟩
  cases failure with
  | some failure =>
    refine (own_skip rfl w₁).bind fun _ w₂ hresult => ?_
    obtain ⟨hdrift₂, hinv₂⟩ := hresult
    have hpre₂ := hdrift₂.uncommitted hpre₁
    refine Safe.bind (retireWorker_own hcarries (show Warrant s I leaseID w₂.log .forfeitReservation from hpre₂.neverRemoved) (by simp))
      fun cleanupErr w₃ hresult => ?_
    obtain ⟨hinv₃, htended₃⟩ := hresult
    refine (own_all (quiet_inward calm_reportBudget.inward) hinv₃).bind fun _ w₄ hresult => ⟨hresult.2, hresult.1.closed ?_⟩
    exact htended₃.closed hpre₂.noRecord.closed
  | none =>
    have hcovers₁ : Covers leaseID w₁ := hdrift.covers (hentry.lease ▸ covers_of_adopt hinv hexec)
    show Safe _ (ask (.state (.add bound false)) >>= _) _ _
    rw [Prog.safe_bind]
    refine own_ask hcarries.genuine rfl (Or.inr (congrArg some hcarries.name)) fun choice answer w₂ w₃ _ hexec _ hdrift₃ hinv₃ => ?_
    have hclosed₃ : Closed leaseID w₃ := fun _ _ => hdrift₃.covers (closed_of_state hexec hcovers₁)
    have hadded : ∃ record, w₃.state.workers.get (runnerName leaseID) = some record := by
      refine ⟨{ worker := bound, busy := false, observed := true }, ?_⟩
      rw [hdrift₃.record]
      obtain ⟨-, rfl⟩ := World.exec_of_effect rfl hexec
      rw [← hcarries.name]
      exact Table.get_put_self _ _
    refine (own_remove hentry.name hinv₃ fun _ => Or.inl hadded).bind fun failure w₄ hresult => ?_
    obtain ⟨hinv₄, htended₄⟩ := hresult
    have hclosed₄ := htended₄.closed hclosed₃
    cases failure with
    | some failure =>
      refine (own_skip rfl w₄).bind fun _ w₅ hresult => ?_
      obtain ⟨hdrift₅, hinv₅⟩ := hresult
      exact ⟨hinv₅, hdrift₅.closed hclosed₄⟩
    | none =>
      refine (own_all (quiet_inward calm_reportRetirements.inward) hinv₄).bind fun _ w₅ hresult => ?_
      obtain ⟨hdrift₅, hinv₅⟩ := hresult
      refine (own_all (quiet_inward s.calm_reportState.inward) hinv₅).bind fun _ w₆ hresult => ?_
      obtain ⟨hdrift₆, hinv₆⟩ := hresult
      refine (own_all (quiet_inward calm_reportBudget.inward) hinv₆).bind fun _ w₇ hresult => ?_
      obtain ⟨hdrift₇, hinv₇⟩ := hresult
      refine (own_skip rfl w₇).bind fun _ w₈ hresult => ?_
      obtain ⟨hdrift₈, hinv₈⟩ := hresult
      exact ⟨hinv₈, (((hdrift₅.trans hdrift₆).trans hdrift₇).trans hdrift₈).closed hclosed₄⟩

theorem launchWorker_own (tier : Tier) (hentry : Intent leaseID entry) (hbound : entry.runnerID ≠ 0)
    (jit : JitRunnerConfig) (hpre : Uncommitted leaseID w) (hgone : Gone leaseID w) :
    Safe (Own s I exact leaseID) (s.launchWorker tier entry jit) (fun _ w' => Inv s I w' ∧ Closed leaseID w') w := by
  unfold Scaler.launchWorker
  refine (own_skip rfl w).bind fun _ w₁ hresult => ?_
  obtain ⟨hdrift₁, _⟩ := hresult
  refine (own_skip rfl w₁).bind fun now w₂ hresult => ?_
  obtain ⟨hdrift₂, _⟩ := hresult
  have hpre₂ := (hdrift₁.trans hdrift₂).uncommitted hpre
  rw [Prog.safe_bind]
  refine own_ask (show entry.runnerName = runnerName entry.leaseID from hentry.lease ▸ hentry.name) rfl (Or.inr (congrArg some hentry.name))
    fun choice answer w₃ w₄ hallowed hexec _ hdrift₄ _ => ?_
  have hsame := World.exec_sameBut hexec
  have hpre₃ : Uncommitted leaseID w₃ := by
    constructor
    · unfold NoRecord
      rw [hsame.state (by simp [Call.part])]
      exact hpre₂.noRecord
    · rw [World.exec_log hexec]
      exact hpre₂.neverRemoved.cons rfl
  have hpre₄ := hdrift₄.uncommitted hpre₃
  refine (own_skip rfl w₄).bind fun _ w₅ hresult => ?_
  obtain ⟨hdrift₅, hinv₅⟩ := hresult
  have hpre₅ := hdrift₅.uncommitted hpre₄
  obtain ⟨created, rfl, rfl⟩ := World.exec_launch hexec
  have hanswer := hallowed.1.2
  cases answer with
  | ok worker => exact commitLaunch_own hentry (hentry.lease ▸ hanswer) hpre₅
  | error launchErr =>
    refine (failedLaunch_own hentry hbound (fun worker hworker hid => ?_) hinv₅ hpre₅ fun hcapacity hexact => ?_).mono
      fun _ w' h => ⟨h.1, h.2.closed⟩
    · exact hentry.lease ▸ hanswer worker hworker hid
    · -- A launch that failed for capacity created nothing.
      obtain rfl : created = none := (hallowed.2.2 hexact).2 hcapacity
      exact (hdrift₄.trans hdrift₅).gone ((hdrift₁.trans hdrift₂).gone hgone)

theorem registerWorker_own (tier : Tier) (hentry : Intent leaseID entry)
    (hpre : Uncommitted leaseID w) (hgone : Gone leaseID w) :
    Safe (Own s I exact leaseID) (s.registerWorker tier entry) (fun _ w' => Inv s I w' ∧ Closed leaseID w') w := by
  unfold Scaler.registerWorker
  refine (own_skip rfl w).bind fun answer w₁ hresult => ?_
  obtain ⟨hdrift₁, hinv₁⟩ := hresult
  have hpre₁ := hdrift₁.uncommitted hpre
  have hgone₁ := hdrift₁.gone hgone
  match answer with
  | .error failure =>
    refine (cleanupJITGenerationFailure_own hentry failure hpre₁ hgone₁).bind fun _ w₂ hresult => ?_
    obtain ⟨hinv₂, hnone₂⟩ := hresult
    exact ⟨hinv₂, hnone₂.closed⟩
  | .ok none =>
    refine (cleanupJITGenerationFailure_own hentry _ hpre₁ hgone₁).bind fun _ w₂ hresult => ?_
    obtain ⟨hinv₂, hnone₂⟩ := hresult
    exact ⟨hinv₂, hnone₂.closed⟩
  | .ok (some jit) =>
    have hresolve : Safe (Own s I exact leaseID) (Scaler.resolveRegistration entry.runnerName jit)
        (fun _ w' => Drift leaseID w₁ w' ∧ Inv s I w') w₁ := by
      unfold Scaler.resolveRegistration
      split
      · exact ⟨Drift.refl leaseID w₁, hinv₁⟩
      · exact own_skip rfl w₁
    refine hresolve.bind fun registration w₂ hresult => ?_
    obtain ⟨hdrift₂, hinv₂⟩ := hresult
    have hpre₂ := hdrift₂.uncommitted hpre₁
    cases registration with
    | error failure => exact ⟨hinv₂, hpre₂.noRecord.closed⟩
    | ok registration =>
      dsimp only
      split
      · refine (own_skip rfl w₂).bind fun _ w₃ hresult => ?_
        obtain ⟨hdrift₃, hinv₃⟩ := hresult
        exact ⟨hinv₃, (hdrift₃.noRecord hpre₂.noRecord).closed⟩
      · rename_i runner hrunner
        obtain ⟨-, hvalid⟩ := Option.filter_eq_some_iff.mp hrunner
        have hid : runner.id ≠ 0 := by
          simp only [Bool.and_eq_true, decide_eq_true_eq] at hvalid
          omega
        have hbound : Intent leaseID { entry with runnerID := runner.id } := ⟨hentry.name, hentry.lease, hentry.disposition⟩
        refine Safe.bind (own_put hbound.lease (hbound.entryOk hpre₂.neverRemoved)) fun failure w₃ hresult => ?_
        obtain ⟨hinv₃, htended₃, hok₃, _⟩ := hresult
        have hnone₃ : NoRecord leaseID w₃ := htended₃.noRecord hpre₂.noRecord
        cases failure with
        | some failure =>
          refine (own_skip rfl w₃).bind fun _ w₄ hresult => ?_
          obtain ⟨hdrift₄, hinv₄⟩ := hresult
          exact ⟨hinv₄, (hdrift₄.noRecord hnone₃).closed⟩
        | none =>
          have hnever₃ : NeverRemoved (runnerName leaseID) w₃.log := by
            have h := hok₃.2
            rw [hbound.lease, hbound.disposition] at h
            exact h
          exact launchWorker_own tier hbound hid jit ⟨hnone₃, hnever₃⟩ (htended₃.gone (hdrift₂.gone hgone₁))

theorem launchIntent_intent (route : ScaleSetRoute) (leaseID : String) (now : Int) :
    Intent leaseID (Scaler.launchIntent route leaseID now) :=
  ⟨rfl, rfl, rfl⟩

theorem admittedWorker_own (route : ScaleSetRoute) (tier : Tier) (hpre : Uncommitted leaseID w) (hgone : Gone leaseID w) :
    Safe (Own s I exact leaseID) (s.admittedWorker route tier leaseID) (fun _ w' => Inv s I w' ∧ Closed leaseID w') w := by
  have hrelease : ∀ {w' : World} (f : Option Err → Bool × Option Err), NoRecord leaseID w' →
      Safe (Own s I exact leaseID) (ask (.release leaseID) >>= fun budgetErr => pure (f budgetErr))
        (fun _ w' => Inv s I w' ∧ Closed leaseID w') w' := fun f hnone =>
    (own_charge (.release leaseID) rfl rfl rfl trivial hnone).bind fun _ w₂ hresult => ⟨hresult.1, hresult.2.1.closed⟩
  unfold Scaler.admittedWorker
  refine (own_skip rfl w).bind fun answer w₁ hresult => ?_
  obtain ⟨hdrift₁, hinv₁⟩ := hresult
  have hpre₁ := hdrift₁.uncommitted hpre
  match answer with
  | .error failure => exact hrelease _ hpre₁.noRecord
  | .ok (some runner) => exact hrelease _ hpre₁.noRecord
  | .ok none =>
    refine (own_skip rfl w₁).bind fun now w₂ hresult => ?_
    obtain ⟨hdrift₂, hinv₂⟩ := hresult
    have hpre₂ := hdrift₂.uncommitted hpre₁
    have hintent := launchIntent_intent route leaseID now
    refine Safe.bind (own_put hintent.lease (hintent.entryOk hpre₂.neverRemoved)) fun failure w₃ hresult => ?_
    obtain ⟨hinv₃, htended₃, hok₃, _⟩ := hresult
    have hnone₃ : NoRecord leaseID w₃ := htended₃.noRecord hpre₂.noRecord
    cases failure with
    | some failure =>
      refine (own_skip rfl w₃).bind fun _ w₄ hresult => ?_
      obtain ⟨hdrift₄, _⟩ := hresult
      refine (own_skip rfl w₄).bind fun now w₅ hresult => ?_
      obtain ⟨hdrift₅, _⟩ := hresult
      refine (own_charge (.forfeit leaseID now) rfl rfl rfl trivial ((hdrift₄.trans hdrift₅).noRecord hnone₃)).bind ?_
      refine fun _ w₆ hresult => ?_
      obtain ⟨hinv₆, hnone₆, _⟩ := hresult
      exact ⟨hinv₆, hnone₆.closed⟩
    | none =>
      refine (own_all (quiet_inward calm_reportRetirements.inward) hinv₃).bind fun _ w₄ hresult => ?_
      obtain ⟨hdrift₄, hinv₄⟩ := hresult
      have hnever₃ : NeverRemoved (runnerName leaseID) w₃.log := hok₃.2
      have hgone₃ := htended₃.gone ((hdrift₁.trans hdrift₂).gone hgone)
      exact registerWorker_own tier hintent (hdrift₄.uncommitted ⟨hnone₃, hnever₃⟩) (hdrift₄.gone hgone₃)

theorem startWorker_own (route : ScaleSetRoute) (spare : Bool) (hpre : Uncommitted leaseID w) (hgone : Gone leaseID w) :
    Safe (Own s I exact leaseID) (s.startWorker route spare leaseID) (fun _ w' => Inv s I w' ∧ Closed leaseID w') w := by
  unfold Scaler.startWorker
  refine (own_skip rfl w).bind fun now w₁ hresult => ?_
  obtain ⟨hdrift₁, _⟩ := hresult
  refine (own_ledger (.reserve leaseID now s.maxLifetime) rfl rfl rfl trivial).bind
    fun answer w₂ hresult => ?_
  obtain ⟨hinv₂, _, hgone₂, hrecord₂, hnever₂, _⟩ := hresult
  have hpre₁ := hdrift₁.uncommitted hpre
  have hpre₂ : Uncommitted leaseID w₂ := ⟨hrecord₂.trans hpre₁.noRecord, hnever₂ hpre₁.neverRemoved⟩
  match answer with
  | .error failure =>
    refine (own_skip rfl w₂).bind fun _ w₃ hresult => ?_
    obtain ⟨hdrift₃, hinv₃⟩ := hresult
    exact ⟨hinv₃, (hdrift₃.noRecord hpre₂.noRecord).closed⟩
  | .ok (allowed, _) =>
    refine (own_all (quiet_inward calm_reportBudget.inward) hinv₂).bind fun _ w₃ hresult => ?_
    obtain ⟨hdrift₃, hinv₃⟩ := hresult
    have hpre₃ := hdrift₃.uncommitted hpre₂
    split
    · exact admittedWorker_own route _ hpre₃ (hdrift₃.gone (hgone₂ (hdrift₁.gone hgone)))
    · exact ⟨hinv₃, hpre₃.noRecord.closed⟩

theorem uncommitted_of_fresh (h : World.fresh leaseID w = true) : Uncommitted leaseID w ∧ Gone leaseID w := by
  simp only [World.fresh, Bool.and_eq_true, decide_eq_true_eq, List.all_eq_true, Option.isNone_iff_eq_none] at h
  obtain ⟨⟨⟨⟨⟨⟨-, hfleet⟩, -⟩, hrecord⟩, -⟩, -⟩, hlog⟩ := h
  exact ⟨⟨hrecord, fun entry hentry => removes_of_about (hlog entry hentry)⟩, hfleet⟩

theorem lawful (s : Scaler) (I : Identity) (exact : Prop) : (outline s I exact).Lawful s.fan World.exec World.fresh where
  inv_step hallowed hexec hguard hinv := inv_of_exec hexec hallowed.1 hallowed.2.1 hguard hinv
  env_refl := Env.refl
  env_trans := Env.trans
  drift_of_env := Env.drift
  drift_trans := Drift.trans
  drift_of_foreign := by
    rintro key key' op w answer w' hne ⟨hloud, habout⟩ hguard ⟨choice, hallowed, hexec, hinv, -⟩
    refine drift_of_exec hexec hallowed.1 hguard hinv hloud fun heq => ?_
    rcases habout with habout | habout
    · rw [habout] at heq
      simp at heq
    · rw [habout, Option.some.injEq] at heq
      exact hne (runnerName_injective heq).symm
  closed_drift hclosed hdrift _ := hdrift.closed hclosed
  aim_env _ _ _ := trivial
  aim_step _ _ _ _ := trivial
  aim_pool _ _ _ := trivial
  pool_start _ _ := trivial
  pool_spawn _ _ _ _ _ := trivial
  pool_env _ _ _ := trivial
  pool_step _ _ _ _ _ _ := trivial
  pool_finish _ _ _ _ _ _ := trivial
  thread := by
    intro req key w w' hfresh _ _ hdrift hinv'
    obtain ⟨hpre, hgone⟩ := uncommitted_of_fresh hfresh
    exact (startWorker_own req.route req.spare (hdrift.uncommitted hpre) (hdrift.gone hgone)).mono fun _ _ h => ⟨h.2, trivial⟩

end Custody

end RunnerYard
