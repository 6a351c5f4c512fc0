import RunnerYard.Budget.Coverage
import RunnerYard.Controller.History

/-!
# Custody of workers

The proof outline behind three results: an entry leaves the journal only when its worker is committed or gone, a worker is destroyed only on grounds that the log shows, and every worker in local state is covered by the ledger. All three are about one lease at a time. What belongs to a lease is its journal entry, its record in local state, its worker at the provider and its ledger entry; `Drift` says what the rest of the controller, working for other leases, may do to it.

The invariant `Inv` holds between any two calls. What a single call needs beyond it is its `Guard`. That a lease is covered is broken for a moment while its worker is retired, so it is what holds of a lease nobody works on.

The parameter `exact` says whether the provider is also assumed to answer exactly; only the first result needs it.
-/

namespace RunnerYard

open Interaction

namespace Custody

variable (s : Scaler) (I : Identity) (exact : Prop)

def Gone (leaseID : String) (w : World) : Prop := ∀ worker ∈ w.fleet, worker.leaseID ≠ leaseID

def NeverRemoved (name : String) (log : List LogEntry) : Prop := ∀ entry ∈ log, entry.removes name = false

/-- The launch of the lease was never committed: its entry of before the launch is pending, and was not removed since. -/
def PreLaunchPending (leaseID : String) (w : World) : Prop :=
  NeverRemoved (runnerName leaseID) w.log ∧
    ∃ entry, w.journal.entries.get (runnerName leaseID) = some entry ∧ entry.budgetDisposition = .forfeitReservation

def Justified (leaseID : String) (w : World) : Prop := PreLaunchPending leaseID w ∨ Evidence s I leaseID w.log

/-- What an entry of a disposition stands for: a launch that is not committed, or grounds to destroy its worker. -/
def Warrant (leaseID : String) (log : List LogEntry) : BudgetDisposition → Prop
  | .forfeitReservation => NeverRemoved (runnerName leaseID) log
  | .settleActualUsage => Evidence s I leaseID log

def EntryOk (entry : RetirementEntry) (log : List LogEntry) : Prop :=
  entry.runnerName = runnerName entry.leaseID ∧ Warrant s I entry.leaseID log entry.budgetDisposition

def Covers (leaseID : String) (w : World) : Prop := Covered w.archive w.budget leaseID

/-- An inventory that succeeds lists what exists, and a deletion that succeeds took effect. -/
def ExactProvider : Call → Choice → World → Prop
  | .inventory _, .inventory (.ok workers), w => workers.Perm w.fleet
  | .destroy _, .destroy none gone, _ => gone = true
  | _, _, _ => True

/-- A launch that failed for capacity created no worker, and the worker that a partial launch named is gone when its cleanup reads the inventory. -/
def CleanFailures : Call → Choice → Prop
  | .launch _ _, .launch (.error failure) created => failure.isCapacity = true → created = none
  | .inventory (.afterFailedLaunch _ (some partialID)), .inventory (.ok workers) => ∀ worker ∈ workers, worker.id ≠ partialID
  | _, _ => True

instance (op : Call) (choice : Choice) (w : World) : Decidable (ExactProvider op choice w) := by
  induction op using Call.casesOn with
  | inventory site =>
    induction choice using Choice.casesOn with
    | inventory answer =>
      induction answer using Except.casesOn with
      | ok workers => exact inferInstanceAs (Decidable (workers.Perm w.fleet))
      | error failure => exact isTrue trivial
    | _ => exact isTrue trivial
  | destroy workerID =>
    induction choice using Choice.casesOn with
    | destroy answer gone =>
      induction answer using Option.casesOn with
      | none => exact inferInstanceAs (Decidable (gone = true))
      | some failure => exact isTrue trivial
    | _ => exact isTrue trivial
  | _ => exact isTrue trivial

instance (op : Call) (choice : Choice) : Decidable (CleanFailures op choice) := by
  induction op using Call.casesOn with
  | launch tier lease =>
    induction choice using Choice.casesOn with
    | launch answer created =>
      induction answer using Except.casesOn with
      | ok worker => exact isTrue trivial
      | error failure => exact inferInstanceAs (Decidable (failure.isCapacity = true → created = none))
    | _ => exact isTrue trivial
  | inventory site =>
    induction site using Site.casesOn with
    | afterFailedLaunch leaseID named =>
      induction named using Option.casesOn with
      | none => exact isTrue trivial
      | some partialID =>
        induction choice using Choice.casesOn with
        | inventory answer =>
          induction answer using Except.casesOn with
          | ok workers => exact inferInstanceAs (Decidable (∀ worker ∈ workers, worker.id ≠ partialID))
          | error failure => exact isTrue trivial
        | _ => exact isTrue trivial
    | _ => exact isTrue trivial
  | _ => exact isTrue trivial

structure Inv (w : World) : Prop where
  fleet : ∀ worker ∈ w.fleet, worker.Genuine I
  records : ∀ record ∈ w.state.workers.rows, record.worker.Genuine I
  missing : ∀ record ∈ w.state.workers.rows, record.missingSince ≠ 0 →
    absentSince record.worker.id record.missingSince w.log = true ∨ Evidence s I record.worker.leaseID w.log
  idle : ∀ record ∈ w.state.workers.rows, record.observed = true → record.busy = false → launchedIdle record.name w.log = true
  entries : ∀ entry ∈ w.journal.entries.rows, EntryOk s I entry w.log
  saved : w.journal.Saved
  budget : w.budget.Proper
  reservation : w.budget.reservation = s.maxLifetime

def Guard : Call → World → Prop
  | .put entry, w => EntryOk s I entry w.log
  | .remove name, w => exact → ∀ entry, w.journal.entries.get name = some entry →
      (∃ record, w.state.workers.get name = some record) ∨ Gone entry.leaseID w
  | .destroy workerID, w => ∃ leaseID, workerID = I.workerID leaseID ∧ Justified s I leaseID w
  | .launch _ lease, _ => lease.runnerName = runnerName lease.id
  | .state (.add worker _), _ => worker.Genuine I
  | .state (.adopt worker), _ => worker.Genuine I
  | .state (.markMissing name at_), w => ∀ record, w.state.workers.get name = some record → at_ ≠ 0 →
      absentSince record.worker.id at_ w.log = true ∨ Evidence s I record.worker.leaseID w.log
  | .note (.evaluated workers _), w => ∀ record ∈ w.state.workers.rows, record.missingSince ≠ 0 →
      (∀ worker ∈ workers, worker.id ≠ record.worker.id) ∨ Evidence s I record.worker.leaseID w.log
  | _, _ => True

structure Env (w w' : World) : Prop where
  log : w'.log = w.log
  journal : w'.journal = w.journal
  state : w'.state = w.state
  ledger : w'.budget = w.budget ∧ w'.budgetFile = w.budgetFile ∧ w'.archive = w.archive
  fleet : ∀ worker ∈ w'.fleet, ∃ old ∈ w.fleet, worker = { old with state := worker.state }

structure Drift (leaseID : String) (w w' : World) : Prop where
  journal : w'.journal.entries.get (runnerName leaseID) = w.journal.entries.get (runnerName leaseID)
  record : w'.state.workers.get (runnerName leaseID) = w.state.workers.get (runnerName leaseID)
  gone : Gone leaseID w → Gone leaseID w'
  log : ∃ new, w'.log = new ++ w.log ∧ ∀ entry ∈ new, entry.about ≠ some (runnerName leaseID) ∧ entry.loud = false
  covers : Covers leaseID w → Covers leaseID w'

/-- A lease that nobody works on: its worker, if it is in local state, is covered. -/
def Closed (leaseID : String) (w : World) : Prop :=
  ∀ record, w.state.workers.get (runnerName leaseID) = some record → Covers leaseID w

def outline : ControllerOutline where
  allowed op choice w := Contract I op choice ∧ WritesSucceed choice ∧ (exact → ExactProvider op choice w ∧ CleanFailures op choice)
  inv := Inv s I
  aim _ := True
  guard := Guard s I exact
  mine leaseID op _ := op.loud = false ∧ (op.about = none ∨ op.about = some (runnerName leaseID))
  solo _ _ := True
  env := Env
  drift := Drift
  closed := Closed
  enter _ _ := True
  poolInv _ _ _ _ _ _ := True
  result _ _ _ _ := True

variable {s I exact}

/-! ### Facts that last -/

section Last

variable {leaseID name : String} {w w' w'' : World} {log : List LogEntry}

theorem Env.refl (w : World) : Env w w :=
  ⟨rfl, rfl, rfl, ⟨rfl, rfl, rfl⟩, fun worker hworker => ⟨worker, hworker, rfl⟩⟩

theorem Env.trans (h : Env w w') (h' : Env w' w'') : Env w w'' := by
  refine ⟨h'.log.trans h.log, h'.journal.trans h.journal, h'.state.trans h.state, ?_, ?_⟩
  · obtain ⟨hbudget, hfile, harchive⟩ := h.ledger
    obtain ⟨hbudget', hfile', harchive'⟩ := h'.ledger
    exact ⟨hbudget'.trans hbudget, hfile'.trans hfile, harchive'.trans harchive⟩
  · intro worker hworker
    obtain ⟨mid, hmid, heq⟩ := h'.fleet worker hworker
    obtain ⟨old, hold, heq'⟩ := h.fleet mid hmid
    refine ⟨old, hold, ?_⟩
    rw [heq, heq']

theorem Env.gone (h : Env w w') (hgone : Gone leaseID w) : Gone leaseID w' := by
  intro worker hworker
  obtain ⟨old, hold, heq⟩ := h.fleet worker hworker
  rw [heq]
  exact hgone old hold

theorem Env.drift (h : Env w w') : Drift leaseID w w' := by
  refine ⟨by rw [h.journal], by rw [h.state], h.gone, ⟨[], by simp [h.log], by simp⟩, ?_⟩
  intro hcovers
  unfold Covers
  rw [h.ledger.1, h.ledger.2.2]
  exact hcovers

theorem Drift.refl (leaseID : String) (w : World) : Drift leaseID w w := (Env.refl w).drift

theorem Drift.trans (h : Drift leaseID w w') (h' : Drift leaseID w' w'') : Drift leaseID w w'' := by
  refine ⟨h'.journal.trans h.journal, h'.record.trans h.record, h'.gone ∘ h.gone, ?_, h'.covers ∘ h.covers⟩
  obtain ⟨new, hnew, hquiet⟩ := h.log
  obtain ⟨new', hnew', hquiet'⟩ := h'.log
  refine ⟨new' ++ new, by rw [hnew', hnew, List.append_assoc], fun entry hentry => ?_⟩
  rcases List.mem_append.mp hentry with hentry | hentry
  · exact hquiet' entry hentry
  · exact hquiet entry hentry

theorem Drift.suffix (h : Drift leaseID w w') : w.log <:+ w'.log := by
  obtain ⟨new, hnew, -⟩ := h.log
  exact ⟨new, hnew.symm⟩

theorem NeverRemoved.cons (h : NeverRemoved name log) {entry : LogEntry} (hentry : entry.removes name = false) :
    NeverRemoved name (entry :: log) := by
  intro other hother
  rcases List.mem_cons.mp hother with rfl | hother
  · exact hentry
  · exact h other hother

theorem removes_of_about {entry : LogEntry} (h : entry.about ≠ some name) : entry.removes name = false := by
  cases entry with
  | delivered event => rfl
  | booted => rfl
  | call op answer =>
    cases op with
    | remove other =>
      have hne : other ≠ name := fun heq => h (by rw [heq]; rfl)
      cases answer with
      | none => simp [LogEntry.removes, hne]
      | some failure => rfl
    | _ => rfl

theorem Drift.neverRemoved (h : Drift leaseID w w') (hnever : NeverRemoved (runnerName leaseID) w.log) :
    NeverRemoved (runnerName leaseID) w'.log := by
  obtain ⟨new, hnew, hquiet⟩ := h.log
  intro entry hentry
  rw [hnew] at hentry
  rcases List.mem_append.mp hentry with hentry | hentry
  · exact removes_of_about (hquiet entry hentry).1
  · exact hnever entry hentry

theorem Drift.warrant (h : Drift leaseID w w') {disposition : BudgetDisposition} (hwarrant : Warrant s I leaseID w.log disposition) :
    Warrant s I leaseID w'.log disposition := by
  cases disposition with
  | forfeitReservation => exact h.neverRemoved hwarrant
  | settleActualUsage => exact Evidence.suffix hwarrant h.suffix

theorem Drift.entryOk (h : Drift leaseID w w') {entry : RetirementEntry} (hlease : entry.leaseID = leaseID)
    (hok : EntryOk s I entry w.log) : EntryOk s I entry w'.log := by
  subst hlease
  exact ⟨hok.1, h.warrant hok.2⟩

theorem Drift.justified (h : Drift leaseID w w') (hjust : Justified s I leaseID w) : Justified s I leaseID w' := by
  rcases hjust with ⟨hnever, entry, hget, hforfeit⟩ | hevidence
  · exact Or.inl ⟨h.neverRemoved hnever, entry, h.journal.trans hget, hforfeit⟩
  · exact Or.inr (hevidence.suffix h.suffix)

theorem Drift.closed (h : Drift leaseID w w') (hclosed : Closed leaseID w) : Closed leaseID w' := by
  intro record hrecord
  rw [h.record] at hrecord
  exact h.covers (hclosed record hrecord)

theorem Warrant.cons {disposition : BudgetDisposition} (h : Warrant s I leaseID log disposition) {new : LogEntry}
    (hnew : new.removes (runnerName leaseID) = false) : Warrant s I leaseID (new :: log) disposition := by
  cases disposition with
  | forfeitReservation => exact NeverRemoved.cons h hnew
  | settleActualUsage => exact Evidence.cons h new

theorem EntryOk.cons {entry : RetirementEntry} (h : EntryOk s I entry log) {new : LogEntry}
    (hnew : new.removes entry.runnerName = false) : EntryOk s I entry (new :: log) :=
  ⟨h.1, h.2.cons (h.1 ▸ hnew)⟩

end Last

/-! ### What a call keeps -/

section Step

variable {op : Call} {choice : Choice} {w w₁ : World} {answer : op.Ans}

theorem ledger_step (hpart : op.part = .ledger) (h : World.effect op choice w = some (answer, w₁)) (hbudget : w.budget.Proper) :
    (w₁.budget.Proper ∧ w₁.budget.reservation = w.budget.reservation) ∧ ∀ leaseID, op.about ≠ some (runnerName leaseID) →
      (∀ activeLeases now, op = .reconcileLeases activeLeases now → leaseID ∈ activeLeases) → Covers leaseID w → Covers leaseID w₁ := by
  have hledger : ∀ {α : Type} (u : LedgerUpdate α) (kept : String → Prop) (disk : Disk), Keeps w.budget u kept →
      ((w.ledger u disk).2.budget.Proper ∧ (w.ledger u disk).2.budget.reservation = w.budget.reservation) ∧
        ∀ leaseID, kept leaseID → Covers leaseID w → Covers leaseID (w.ledger u disk).2 :=
    fun u kept disk hkeeps =>
      ⟨⟨hkeeps.proper hbudget, hkeeps.reservation⟩, fun leaseID hkept hcovers => hkeeps.covered w.archive leaseID hkept hbudget hcovers⟩
  have hne : ∀ {leaseID other : String}, some (runnerName other) ≠ some (runnerName leaseID) → leaseID ≠ other :=
    fun h heq => h (by rw [heq])
  cases op <;> simp only [Call.part, reduceCtorEq] at hpart <;>
    simp only [World.effect, World.onDisk_eq_some_iff, Prod.ext_iff] at h <;> obtain ⟨disk, -, -, rfl⟩ := h
  case reserve leaseID now maximum =>
    obtain ⟨hproper, hkept⟩ := hledger _ _ disk (keeps_reserve w.budget leaseID now maximum disk.failure)
    exact ⟨hproper, fun other habout _ => hkept other (hne habout)⟩
  case settleAt leaseID stoppedAt now =>
    obtain ⟨hproper, hkept⟩ := hledger _ _ disk (keeps_settleAt w.budget leaseID stoppedAt now disk.failure)
    exact ⟨hproper, fun other habout _ => hkept other (hne habout)⟩
  case forfeit leaseID now =>
    obtain ⟨hproper, hkept⟩ := hledger _ _ disk (keeps_forfeit w.budget leaseID now disk.failure)
    exact ⟨hproper, fun other habout _ => hkept other (hne habout)⟩
  case release leaseID =>
    obtain ⟨hproper, hkept⟩ := hledger _ _ disk (keeps_release w.budget leaseID disk.failure)
    exact ⟨hproper, fun other habout _ => hkept other (hne habout)⟩
  case adopt leaseID startedAt =>
    obtain ⟨hproper, hkept⟩ := hledger _ _ disk (keeps_adopt w.budget leaseID startedAt w.clock disk.failure)
    exact ⟨hproper, fun other habout _ => hkept other (hne habout)⟩
  case reconcileLeases activeLeases now =>
    obtain ⟨hproper, hkept⟩ := hledger _ _ disk (keeps_reconcile w.budget activeLeases now disk.failure)
    exact ⟨hproper, fun other _ hactive => hkept other (hactive activeLeases now rfl)⟩

theorem budget_step (h : World.effect op choice w = some (answer, w₁)) (hbudget : w.budget.Proper) :
    w₁.budget.Proper ∧ w₁.budget.reservation = w.budget.reservation := by
  by_cases hpart : op.part = .ledger
  · exact (ledger_step hpart h hbudget).1
  · rw [((World.effect_sameBut h).ledger hpart).1]
    exact ⟨hbudget, rfl⟩

theorem fleet_step (h : World.effect op choice w = some (answer, w₁)) (hcontract : Contract I op choice) {worker : Worker}
    (hworker : worker ∈ w₁.fleet) : worker ∈ w.fleet ∨ ∃ tier lease, op = .launch tier lease ∧ worker.Carries I lease.id := by
  by_cases hpart : op.part = .fleet
  · cases op <;> simp only [Call.part, reduceCtorEq] at hpart
    case launch tier lease =>
      cases choice <;> simp only [World.effect, Option.some.injEq, Prod.mk.injEq, reduceCtorEq] at h
      obtain ⟨-, rfl⟩ := h
      rcases List.mem_append.mp hworker with hnew | hold
      · exact Or.inr ⟨tier, lease, rfl, hcontract.1 worker (by simpa using hnew)⟩
      · exact Or.inl hold
    case destroy workerID =>
      cases choice <;> simp only [World.effect, Option.some.injEq, Prod.mk.injEq, reduceCtorEq] at h
      obtain ⟨-, rfl⟩ := h
      left
      split at hworker
      · exact List.mem_of_mem_filter hworker
      · exact hworker
  · rw [(World.effect_sameBut h).fleet hpart] at hworker
    exact Or.inl hworker

theorem journal_get_step (h : World.exec op choice w = some (answer, w₁)) {name : String} (habout : op.about ≠ some name) :
    w₁.journal.entries.get name = w.journal.entries.get name := by
  rcases World.journal_of_exec h with ⟨entry, disk, rfl, hjournal⟩ | ⟨other, disk, rfl, hjournal⟩ | hjournal <;> rw [hjournal]
  · exact RetirementQueue.get_put_of_ne fun heq => habout (by rw [heq]; rfl)
  · exact RetirementQueue.get_remove_of_ne fun heq => habout (by rw [heq]; rfl)

theorem record_get_step (h : World.effect op choice w = some (answer, w₁)) {name : String} (habout : op.about ≠ some name) :
    w₁.state.workers.get name = w.state.workers.get name := by
  by_cases hpart : op.part = .state
  · cases op <;> simp only [Call.part, reduceCtorEq] at hpart
    case state op =>
      simp only [World.effect, Option.map_eq_some_iff, Prod.mk.injEq] at h
      obtain ⟨⟨a, st⟩, hst, rfl, rfl⟩ := h
      exact StateOp.get_eq_of_about hst habout
  · rw [(World.effect_sameBut h).state hpart]

variable {w' : World}

theorem drift_of_exec (h : World.exec op choice w = some (answer, w')) (hcontract : Contract I op choice)
    (hguard : Guard s I exact op w) (hinv : Inv s I w) (hloud : op.loud = false) {leaseID : String}
    (habout : op.about ≠ some (runnerName leaseID)) : Drift leaseID w w' := by
  obtain ⟨w₁, heffect, rfl⟩ := World.exec_eq_some_iff.mp h
  have hsame := World.effect_sameBut heffect
  refine ⟨journal_get_step h habout, record_get_step heffect habout, ?_, ?_, ?_⟩
  · intro hgone worker hworker
    rcases fleet_step heffect hcontract hworker with hold | ⟨tier, lease, rfl, hcarries⟩
    · exact hgone worker hold
    · rw [hcarries.lease]
      rintro rfl
      exact habout (congrArg some hguard)
  · refine ⟨[.call op answer], World.exec_log h, fun entry hentry => ?_⟩
    rw [List.mem_singleton.mp hentry]
    exact ⟨habout, hloud⟩
  · intro hcovers
    show Covers leaseID w₁
    by_cases hpart : op.part = .ledger
    · refine (ledger_step hpart heffect hinv.budget).2 leaseID habout ?_ hcovers
      rintro activeLeases now rfl
      simp [Call.loud] at hloud
    · obtain ⟨hbudget, -, harchive⟩ := hsame.ledger hpart
      unfold Covers
      rw [hbudget, harchive]
      exact hcovers

theorem records_step (h : World.exec op choice w = some (answer, w')) (hguard : Guard s I exact op w) (hinv : Inv s I w)
    {record : WorkerRecord} (hrecord : record ∈ w'.state.workers.rows) :
    record.worker.Genuine I ∧
      (record.missingSince ≠ 0 →
        absentSince record.worker.id record.missingSince w'.log = true ∨ Evidence s I record.worker.leaseID w'.log) ∧
      (record.observed = true → record.busy = false → launchedIdle record.name w'.log = true) := by
  obtain ⟨w₁, heffect, rfl⟩ := World.exec_eq_some_iff.mp h
  rw [World.exec_log h]
  have hmissing : ∀ old ∈ w.state.workers.rows, old.missingSince ≠ 0 →
      absentSince old.worker.id old.missingSince (.call op answer :: w.log) = true ∨
        Evidence s I old.worker.leaseID (.call op answer :: w.log) := by
    intro old hold hzero
    rcases hinv.missing old hold hzero with habsent | hevidence
    · by_cases hnote : ∃ workers now, op = .note (.evaluated workers now)
      · obtain ⟨workers, now, rfl⟩ := hnote
        rcases hguard old hold hzero with hlist | hevidence
        · exact Or.inl (absentSince_evaluated habsent hlist)
        · exact Or.inr (hevidence.cons _)
      · refine Or.inl (absentSince_cons habsent fun workers now a heq => hnote ⟨workers, now, ?_⟩)
        simp only [LogEntry.call.injEq] at heq
        exact heq.1
    · exact Or.inr (hevidence.cons _)
  have hidle : ∀ old ∈ w.state.workers.rows, op ≠ .state (.markBusy old.name) → old.observed = true → old.busy = false →
      launchedIdle old.name (.call op answer :: w.log) = true := by
    intro old hold hop hobserved hbusy
    have hlaunched := hinv.idle old hold hobserved hbusy
    by_cases hmark : ∃ other, op = .state (.markBusy other)
    · obtain ⟨other, rfl⟩ := hmark
      exact launchedIdle_markBusy hlaunched (fun heq => hop (by rw [heq])) answer
    · refine launchedIdle_cons hlaunched (by simp) fun other a heq => hmark ⟨other, ?_⟩
      simp only [LogEntry.call.injEq] at heq
      exact heq.1
  by_cases hpart : op.part = .state
  · cases op <;> simp only [Call.part, reduceCtorEq] at hpart
    case state op =>
      simp only [World.effect, Option.map_eq_some_iff, Prod.mk.injEq] at heffect
      obtain ⟨⟨a, st⟩, hst, rfl, rfl⟩ := heffect
      cases StateOp.recordStep hst hrecord with
      | kept hkept =>
        refine ⟨hinv.records record hkept, hmissing record hkept, fun hobserved hbusy => hidle record hkept ?_ hobserved hbusy⟩
        -- The record of the runner whose job starts is replaced, so a kept one is another's.
        rintro heq
        obtain rfl : op = .markBusy record.name := by simpa using heq
        have hget := Table.get_of_mem hkept
        have hput : st.workers = w.state.workers.put { record with busy := true, observed := true, missingSince := 0 } := by
          simp only [StateOp.exec, Option.some.injEq, WorkerState.markBusy, hget, Prod.mk.injEq] at hst
          rw [← hst.2]
        have hmem : record ∈ (w.state.workers.put { record with busy := true, observed := true, missingSince := 0 }).rows := hput ▸ hrecord
        rcases Table.mem_put.mp hmem with hsame | ⟨-, hne⟩
        · rw [hsame] at hbusy
          simp at hbusy
        · exact hne rfl
      | added worker busy => exact ⟨hguard, fun hzero => absurd rfl hzero, fun _ _ => by simp [launchedIdle, WorkerRecord.name]⟩
      | adopted worker => exact ⟨hguard, fun hzero => absurd rfl hzero, fun hobserved => by simp at hobserved⟩
      | @started old hold => exact ⟨hinv.records old hold, fun hzero => absurd rfl hzero, fun _ hbusy => by simp at hbusy⟩
      | @missed old at_ hold hzero =>
        refine ⟨hinv.records old hold, fun hat => ?_, fun hobserved hbusy => hidle old hold (by simp) hobserved hbusy⟩
        rcases hguard old (Table.get_of_mem hold) hat with habsent | hevidence
        · exact Or.inl (absentSince_cons habsent (by simp))
        · exact Or.inr (hevidence.cons _)
      | @seen old hold =>
        exact ⟨hinv.records old hold, fun hzero => absurd rfl hzero, fun hobserved hbusy => hidle old hold (by simp) hobserved hbusy⟩
  · have hstate : w₁.state = w.state := (World.effect_sameBut heffect).state hpart
    have hrecord' : record ∈ w.state.workers.rows := by
      rw [← hstate]
      exact hrecord
    refine ⟨hinv.records record hrecord', hmissing record hrecord', hidle record hrecord' ?_⟩
    rintro rfl
    simp [Call.part] at hpart

theorem entries_step (h : World.exec op choice w = some (answer, w')) (hwrites : WritesSucceed choice)
    (hguard : Guard s I exact op w) (hinv : Inv s I w) :
    (∀ entry ∈ w'.journal.entries.rows, EntryOk s I entry w'.log) ∧ w'.journal.Saved := by
  obtain ⟨w₁, heffect, rfl⟩ := World.exec_eq_some_iff.mp h
  rw [World.exec_log h]
  by_cases hpart : op.part = .journal
  · cases op <;> simp only [Call.part, reduceCtorEq] at hpart
    case put new =>
      simp only [World.effect, World.onDisk_eq_some_iff, Prod.mk.injEq] at heffect
      obtain ⟨disk, rfl, -, rfl⟩ := heffect
      obtain rfl : disk = .ok := hwrites
      refine ⟨fun entry hentry => ?_, hinv.saved.put new⟩
      rcases RetirementQueue.mem_put_cases hentry with hold | ⟨hname, hlease, hdisposition, -, -⟩
      · exact (hinv.entries entry hold).cons rfl
      · have hentryOk : EntryOk s I entry w.log := by
          unfold EntryOk
          rw [hname, hlease, hdisposition]
          exact hguard
        exact hentryOk.cons rfl
    case remove name =>
      simp only [World.effect, World.onDisk_eq_some_iff, Prod.mk.injEq] at heffect
      obtain ⟨disk, rfl, -, rfl⟩ := heffect
      obtain rfl : disk = .ok := hwrites
      refine ⟨fun entry hentry => ?_, hinv.saved.remove name⟩
      have hne : name ≠ entry.runnerName := by
        rintro rfl
        have hgone := RetirementQueue.get_remove_self w.journal entry.runnerName
        exact absurd ((Table.get_of_mem hentry).symm.trans hgone) (by simp)
      refine (hinv.entries entry (RetirementQueue.mem_of_mem_remove hentry)).cons (removes_of_about ?_)
      exact fun heq => hne (Option.some.inj heq)
  · have hjournal : w₁.journal = w.journal := (World.effect_sameBut heffect).journal hpart
    have hquiet : ∀ name, (LogEntry.call op answer).removes name = false := by
      intro name
      cases op <;> first | rfl | simp [Call.part] at hpart
    show (∀ entry ∈ w₁.journal.entries.rows, _) ∧ w₁.journal.Saved
    rw [hjournal]
    exact ⟨fun entry hentry => (hinv.entries entry hentry).cons (hquiet _), hinv.saved⟩

theorem inv_of_exec (h : World.exec op choice w = some (answer, w')) (hcontract : Contract I op choice)
    (hwrites : WritesSucceed choice) (hguard : Guard s I exact op w) (hinv : Inv s I w) : Inv s I w' := by
  obtain ⟨hentries, hsaved⟩ := entries_step h hwrites hguard hinv
  refine
    { fleet := fun worker hworker => ?_
      records := fun record hrecord => (records_step h hguard hinv hrecord).1
      missing := fun record hrecord => (records_step h hguard hinv hrecord).2.1
      idle := fun record hrecord => (records_step h hguard hinv hrecord).2.2
      entries := hentries
      saved := hsaved
      budget := ?_
      reservation := ?_ }
  · obtain ⟨w₁, heffect, rfl⟩ := World.exec_eq_some_iff.mp h
    rcases fleet_step heffect hcontract hworker with hold | ⟨tier, lease, -, hcarries⟩
    · exact hinv.fleet worker hold
    · exact hcarries.genuine
  · obtain ⟨w₁, heffect, rfl⟩ := World.exec_eq_some_iff.mp h
    show w₁.budget.Proper
    exact (budget_step heffect hinv.budget).1
  · obtain ⟨w₁, heffect, rfl⟩ := World.exec_eq_some_iff.mp h
    exact (budget_step heffect hinv.budget).2.trans hinv.reservation

theorem Env.inv (h : Env w w') (hinv : Inv s I w) : Inv s I w' := by
  obtain ⟨hlog, hjournal, hstate, ⟨hbudget, -, -⟩, hfleet⟩ := h
  constructor
  · intro worker hworker
    obtain ⟨old, hold, heq⟩ := hfleet worker hworker
    have hgenuine := hinv.fleet old hold
    rw [heq]
    exact ⟨rfl, hgenuine.name, hgenuine.id, hgenuine.created⟩
  · rw [hstate]
    exact hinv.records
  · rw [hstate, hlog]
    exact hinv.missing
  · rw [hstate, hlog]
    exact hinv.idle
  · rw [hjournal, hlog]
    exact hinv.entries
  · rw [hjournal]
    exact hinv.saved
  · rw [hbudget]
    exact hinv.budget
  · rw [hbudget]
    exact hinv.reservation

end Step

end Custody

end RunnerYard
