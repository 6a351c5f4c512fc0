import RunnerYard.Controller.Reconcile

/-!
# Custody through handlers, recoveries and restarts

The handlers of the listener keep every lease at rest covered, whether they succeed or fail; a process that starts has nothing in local state, and its recovery collects it again. With this the outline of `Custody` is sound for the whole controller.
-/

namespace RunnerYard

open Interaction
open Interaction.Prog (Safe All lift fanOut)

namespace Custody

variable {s : Scaler} {I : Identity} {exact : Prop} {leaseID : String} {w w' : World}

abbrev Main (s : Scaler) (I : Identity) (exact : Prop) : Logic (MainAns Call.Ans LaunchRequest LaunchSummary) World :=
  (outline s I exact).mainLogic s.fan World.exec

def AllClosed (s : Scaler) (I : Identity) (w : World) : Prop := Inv s I w ∧ ∀ leaseID, Closed leaseID w

theorem AllClosed.drift (h : AllClosed s I w) (hdrift : ∀ leaseID, Drift leaseID w w') (hinv : Inv s I w') : AllClosed s I w' :=
  ⟨hinv, fun leaseID => (hdrift leaseID).closed (h.2 leaseID)⟩

theorem main_lift {α : Type} {p : Script α} {post : α → World → Prop} (h : Safe (Alone s I exact) p post w) :
    Safe (Main s I exact) (lift p) post w :=
  ((outline s I exact).safe_lift s.fan World.exec).mpr h

theorem handleJobStarted_alone (name : String) (h : AllClosed s I w) :
    Safe (Alone s I exact) (s.handleJobStarted name) (fun _ w' => AllClosed s I w') w := by
  unfold Scaler.handleJobStarted
  refine (alone_skip rfl w).bind fun _ w₁ hresult => ?_
  obtain ⟨hdrift₁, hinv₁⟩ := hresult
  have h₁ := h.drift hdrift₁ hinv₁
  have hbusy : Safe (Alone s I exact) (ask (.state (.markBusy name))) (fun _ w' => AllClosed s I w') w₁ := by
    refine alone_ask trivial fun choice answer w₂ w₃ _ hexec _ henv hinv₃ => ⟨hinv₃, fun leaseID => henv.drift.closed ?_⟩
    exact closed_of_mark (by simp) (by simp) hexec (h₁.2 leaseID)
  refine hbusy.bind fun known w₂ h₂ => ?_
  cases known
  · refine (alone_skip rfl w₂).bind fun _ w₃ hresult => ?_
    obtain ⟨hdrift₃, hinv₃⟩ := hresult
    exact h₂.drift hdrift₃ hinv₃
  · refine (alone_all (quiet_inward s.calm_reportState.inward) h₂.1).bind fun _ w₃ hresult => ?_
    obtain ⟨hdrift₃, hinv₃⟩ := hresult
    exact h₂.drift hdrift₃ hinv₃

theorem inward_completed (s : Scaler) : Inward (do
    s.reportState
    reportBudget
    report .recovered
    pure none : Script (Option Err)) :=
  s.calm_reportState.inward.bind fun _ => calm_reportBudget.inward.bind fun _ => (inward_ask rfl).bind fun _ => trivial

theorem handleJobCompleted_alone {name : String} {finishTime : Int} (h : AllClosed s I w)
    (hdelivered : ∃ past, LogEntry.delivered (.jobCompleted name finishTime) :: past <:+ w.log) :
    Safe (Alone s I exact) (s.handleJobCompleted name finishTime) (fun _ w' => AllClosed s I w') w := by
  unfold Scaler.handleJobCompleted
  refine (alone_skip rfl w).bind fun _ w₁ hresult => ?_
  obtain ⟨hdrift₁, hinv₁⟩ := hresult
  refine (alone_skip rfl w₁).bind fun _ w₂ hresult => ?_
  obtain ⟨hdrift₂, hinv₂⟩ := hresult
  rw [Prog.safe_bind]
  refine alone_quiet rfl fun choice answer w₃ w₄ _ hexec hdrift₃ henv hinv₄ => ?_
  have hdrift : ∀ leaseID, Drift leaseID w w₄ := fun leaseID =>
    (((hdrift₁ leaseID).trans (hdrift₂ leaseID)).trans (hdrift₃ leaseID)).trans henv.drift
  have h₄ := h.drift hdrift hinv₄
  cases answer with
  | none => exact h₄
  | some record =>
    have hget : w₄.state.workers.get name = some record := by
      rw [henv.state]
      obtain ⟨w₅, heffect, rfl⟩ := World.exec_eq_some_iff.mp hexec
      simp only [World.effect, StateOp.exec, Option.map_some, Option.some.injEq, Prod.mk.injEq] at heffect
      obtain ⟨hget, rfl⟩ := heffect
      exact hget
    have hgenuine := hinv₄.records record (Table.mem_of_get hget)
    have hname : name = runnerName record.worker.leaseID := (Table.key_of_get hget).symm.trans hgenuine.name
    obtain ⟨past, hpast⟩ := hdelivered
    rw [hname] at hpast
    have hevidence : Evidence s I record.worker.leaseID w₄.log :=
      (Grounds.completed finishTime past).evidence.suffix (hpast.trans (hdrift "").suffix)
    have hretire : Safe (Own s I exact record.worker.leaseID)
        (s.retireWorker record.worker true .settleActualUsage (workerStoppedAt finishTime))
        (fun _ w' => Inv s I w' ∧ Cared record.worker.leaseID w₄ w' ∧ True) w₄ :=
      (retireWorker_own hgenuine (show Warrant s I record.worker.leaseID w₄.log .settleActualUsage from hevidence) (by simp)).mono
        fun _ _ hw' => ⟨hw'.1, hw'.2.cared, trivial⟩
    refine (alone_cared hretire).bind fun failure w₅ hresult => ?_
    obtain ⟨hinv₅, hcared₅, _, _⟩ := hresult
    have h₅ : AllClosed s I w₅ := ⟨hinv₅, fun leaseID => (hcared₅ leaseID).closed (h₄.2 leaseID)⟩
    cases failure with
    | some failure => exact h₅
    | none => exact (alone_all (quiet_inward (inward_completed s)) hinv₅).mono fun _ w' hw' => h₅.drift hw'.1 hw'.2

theorem handle_main (event : ListenerEvent) (h : AllClosed s I w) (hdelivered : ∃ past, LogEntry.delivered event :: past <:+ w.log) :
    Safe (Main s I exact) (s.handle event) (fun _ w' => AllClosed s I w') w := by
  apply Scaler.handle_rule (P := AllClosed s I)
  · intro α p w hinward h
    exact main_lift ((alone_all (quiet_inward hinward) h.1).mono fun _ _ hw' => h.drift hw'.1 hw'.2)
  · intro request w h
    refine ⟨⟨trivial, h.2⟩, fun sum w₁ hsettled w₂ hrely => ?_⟩
    exact ⟨hrely.2, fun leaseID => hrely.1.drift.closed (hsettled.2.1 leaseID)⟩
  · exact fun h => main_lift (reconcile_alone h.2)
  · exact h
  · exact fun name _ => main_lift (handleJobStarted_alone name h)
  · rintro name finishTime rfl
    exact main_lift (handleJobCompleted_alone h hdelivered)

/-! ### The controller -/

def Allowed (I : Identity) (exact : Prop) (op : Call) (choice : Choice) (w : World) : Prop :=
  Contract I op choice ∧ WritesSucceed choice ∧ (exact → ExactProvider op choice w ∧ CleanFailures op choice)

theorem Env.of_change (w : World) (change : EnvChange) : Env w (w.change change) := by
  cases change with
  | tick clock => exact ⟨rfl, rfl, rfl, ⟨rfl, rfl, rfl⟩, fun worker hworker => ⟨worker, hworker, rfl⟩⟩
  | workerState workerID state =>
    refine ⟨rfl, rfl, rfl, ⟨rfl, rfl, rfl⟩, fun worker hworker => ?_⟩
    obtain ⟨old, hold, rfl⟩ := List.mem_map.mp hworker
    refine ⟨old, hold, ?_⟩
    unfold Worker.withState
    split
    · split <;> rfl
    · rfl
  | vanish workerID => exact ⟨rfl, rfl, rfl, ⟨rfl, rfl, rfl⟩, fun worker hworker => ⟨worker, List.mem_of_mem_filter hworker, rfl⟩⟩
  | forget runnerName => exact ⟨rfl, rfl, rfl, ⟨rfl, rfl, rfl⟩, fun worker hworker => ⟨worker, hworker, rfl⟩⟩

theorem inv_delivered (hinv : Inv s I w) (event : ListenerEvent) : Inv s I (w.record (.delivered event)) where
  fleet := hinv.fleet
  records := hinv.records
  missing record hrecord hzero := (hinv.missing record hrecord hzero).imp (fun h => absentSince_cons h (by simp)) fun h => h.cons _
  idle record hrecord hobserved hbusy := launchedIdle_cons (hinv.idle record hrecord hobserved hbusy) (by simp) (by simp)
  entries entry hentry := (hinv.entries entry hentry).cons rfl
  saved := hinv.saved
  budget := hinv.budget
  reservation := hinv.reservation

theorem inv_boot {disk : Disk} (hinv : Inv s I w) (hboot : s.boot disk w = some w') :
    Inv s I w' ∧ (∀ leaseID, NoRecord leaseID w') ∧ ∀ name, w'.journal.entries.get name = w.journal.entries.get name := by
  unfold Scaler.boot World.ledger at hboot
  dsimp only at hboot
  split at hboot
  · rename_i journal hledger hload
    simp only [Option.some.injEq] at hboot
    subst hboot
    have hrows : ∀ entry, entry ∈ journal.entries.rows ↔ entry ∈ w.journal.entries.rows := fun entry =>
      (RetirementQueue.load_rows hload).trans (hinv.saved entry)
    refine ⟨?_, fun leaseID => Table.get_empty _, fun name => Table.get_congr hrows name⟩
    refine
      { fleet := hinv.fleet
        records := by simp [World.record, WorkerState.empty, Table.empty]
        missing := by simp [World.record, WorkerState.empty, Table.empty]
        idle := by simp [World.record, WorkerState.empty, Table.empty]
        entries := fun entry hentry => (hinv.entries entry ((hrows entry).mp hentry)).cons rfl
        saved := fun entry => ?_
        budget := proper_load hledger
        reservation := (load_reservation _ _ _ _ _ _).trans hinv.reservation }
    show entry ∈ journal.file ↔ entry ∈ journal.entries.rows
    rw [RetirementQueue.load_file hload, RetirementQueue.load_rows hload]
  · simp at hboot

theorem sound (s : Scaler) (I : Identity) (exact : Prop) :
    (outline s I exact).Sound s (Admitted (Allowed I exact)) fun _ _ _ => True where
  lawful := lawful s I exact
  allowed := by
    intro c label op choice hok hmade
    cases label <;> first | exact hok (op, choice) hmade | simp [Config.made] at hmade
  env _ hinv := ⟨Env.of_change _ _, (Env.of_change _ _).inv hinv⟩
  boot _ hinv _ hboot := by
    obtain ⟨hinv', hnone, -⟩ := inv_boot hinv hboot
    refine ⟨hinv', trivial, fun w'' henv hinv'' => (recover_alone fun leaseID => henv.drift.noRecord (hnone leaseID)).mono ?_⟩
    exact fun _ _ h => ⟨fun _ => h.2, trivial⟩
  deliver := by
    intro c event _ hinv _ hclosed
    refine ⟨inv_delivered hinv event, trivial, fun w' henv hinv' => (handle_main event ⟨hinv', fun leaseID => ?_⟩ ⟨c.world.log, ?_⟩).mono ?_⟩
    · exact henv.drift.closed (hclosed leaseID)
    · rw [henv.log]
      exact List.suffix_rfl
    · exact fun _ _ h => ⟨fun _ => h.2, trivial⟩

theorem inv_initial {fleet : List Worker} (hfleet : ∀ worker ∈ fleet, worker.Genuine I) (limit window clock : Int) :
    Inv s I (s.initial limit window clock fleet).world where
  fleet := hfleet
  records := by simp [Scaler.initial, WorkerState.empty, Table.empty]
  missing := by simp [Scaler.initial, WorkerState.empty, Table.empty]
  idle := by simp [Scaler.initial, WorkerState.empty, Table.empty]
  entries := by simp [Scaler.initial, Table.empty]
  saved := by simp [Scaler.initial, RetirementQueue.Saved, Table.empty]
  budget := ⟨by simp [Scaler.initial], by simp [Scaler.initial]⟩
  reservation := rfl

theorem configSafe {fleet : List Worker} (hfleet : ∀ worker ∈ fleet, worker.Genuine I) {limit window clock : Int} {c : Config}
    (h : Reaches s (Admitted (Allowed I exact)) (s.initial limit window clock fleet) c) :
    (outline s I exact).ConfigSafe s (fun _ _ _ => True) c :=
  ControllerOutline.ConfigSafe.reaches (sound s I exact) ⟨inv_initial hfleet limit window clock, trivial, trivial⟩ h

end Custody

end RunnerYard
