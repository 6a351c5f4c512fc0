import RunnerYard.Controller.Effects

/-!
# What the log proves

The reasons for which a worker may be destroyed, read off the log of calls. Each is a fact about the log up to some past moment, so it stays one as the log grows.

Two things are assumed of the provider throughout. It reports a worker under the identity it was launched with: the lease determines the runner name, the worker ID, and the creation time. And it reports a lease once in an inventory.
-/

namespace RunnerYard

structure Identity where
  workerID : String → String
  createdAt : String → Int
  injective : Function.Injective workerID

structure Worker.Carries (I : Identity) (leaseID : String) (worker : Worker) : Prop where
  lease : worker.leaseID = leaseID
  name : worker.runnerName = RunnerYard.runnerName leaseID
  id : worker.id = I.workerID leaseID
  created : worker.createdAt = I.createdAt leaseID

def Worker.Genuine (I : Identity) (worker : Worker) : Prop := worker.Carries I worker.leaseID

theorem Worker.Carries.genuine {I : Identity} {leaseID : String} {worker : Worker} (h : worker.Carries I leaseID) :
    worker.Genuine I := by
  have hlease := h.lease
  subst hlease
  exact h

theorem runnerName_injective : Function.Injective runnerName := by
  intro a b h
  simpa [runnerName] using h

theorem runnerName_ne {a b : String} (h : a ≠ b) : runnerName a ≠ runnerName b := fun heq => h (runnerName_injective heq)

theorem Worker.Genuine.leaseID_eq {I : Identity} {a b : Worker} (ha : a.Genuine I) (hb : b.Genuine I) (h : a.id = b.id) :
    a.leaseID = b.leaseID :=
  I.injective (ha.id.symm.trans (h.trans hb.id))

/-- The provider keeps to `docs/adapter-contract.md`: a launch creates at most one worker and reports it under its lease, and an inventory lists a lease once. -/
def Contract (I : Identity) : Call → Choice → Prop
  | .launch _ lease, .launch answer created =>
    (∀ worker ∈ created, worker.Carries I lease.id) ∧
      match answer with
      | .ok worker => worker.Carries I lease.id
      | .error failure => ∀ worker ∈ failure.asPartialLaunch, worker.id ≠ "" → worker.Carries I lease.id
  | .inventory _, .inventory (.ok workers) => (∀ worker ∈ workers, worker.Genuine I) ∧ (workers.map (·.leaseID)).Nodup
  | _, _ => True

def WritesSucceed : Choice → Prop
  | .disk outcome => outcome = .ok
  | _ => True

instance (I : Identity) (leaseID : String) (worker : Worker) : Decidable (worker.Carries I leaseID) :=
  decidable_of_iff (worker.leaseID = leaseID ∧ worker.runnerName = runnerName leaseID ∧ worker.id = I.workerID leaseID ∧
    worker.createdAt = I.createdAt leaseID) ⟨fun h => ⟨h.1, h.2.1, h.2.2.1, h.2.2.2⟩, fun h => ⟨h.lease, h.name, h.id, h.created⟩⟩

instance (I : Identity) (worker : Worker) : Decidable (worker.Genuine I) := inferInstanceAs (Decidable (worker.Carries I worker.leaseID))

instance (I : Identity) (op : Call) (choice : Choice) : Decidable (Contract I op choice) := by
  unfold Contract
  split
  · rename_i answer _
    cases answer <;> infer_instance
  · infer_instance
  · infer_instance

instance (choice : Choice) : Decidable (WritesSucceed choice) := by
  unfold WritesSucceed
  split <;> infer_instance

/-! ### Loud calls -/

/-- Calls that only run outside of launches. -/
def Call.loud : Call → Bool
  | reconcileLeases _ _ => true
  | note (.evaluated _ _) => true
  | state (.markBusy _) => true
  | _ => false

def LogEntry.loud : LogEntry → Bool
  | call op _ => op.loud
  | delivered _ => false
  | booted => true

def LogEntry.removes (name : String) : LogEntry → Bool
  | call (.remove other) none => other = name
  | _ => false

/-- This process launched the worker and has not seen it start a job since. -/
def launchedIdle (name : String) : List LogEntry → Bool
  | [] => false
  | .call (.state (.add worker _)) _ :: rest => worker.runnerName = name || launchedIdle name rest
  | .call (.state (.markBusy other)) _ :: rest => other ≠ name && launchedIdle name rest
  | .booted :: _ => false
  | _ :: rest => launchedIdle name rest

/-- Every inventory that a reconcile evaluated since the one at `since` lacks the worker, that one included. -/
def absentSince (workerID : String) (since : Int) : List LogEntry → Bool
  | [] => false
  | .call (.note (.evaluated workers now)) _ :: rest =>
    workers.all (·.id ≠ workerID) && (now = since || absentSince workerID since rest)
  | _ :: rest => absentSince workerID since rest

/-- The reasons for which the worker of a lease may be destroyed, at the moment the log shows one. -/
inductive Grounds (s : Scaler) (I : Identity) (leaseID : String) : List LogEntry → Prop
  | completed (finishTime : Int) (past : List LogEntry) :
      Grounds s I leaseID (.delivered (.jobCompleted (runnerName leaseID) finishTime) :: past)
  | expired (now : Int) (past : List LogEntry) : I.createdAt leaseID ≠ 0 → s.maxLifetime < now - I.createdAt leaseID →
      Grounds s I leaseID (.call .now now :: past)
  | stopped (site : Site) (workers : List Worker) (worker : Worker) (past : List LogEntry) : worker ∈ workers →
      worker.leaseID = leaseID → workerStopped worker.state = true →
      Grounds s I leaseID (.call (.inventory site) (.ok workers) :: past)
  | absent (workers : List Worker) (now since : Int) (past : List LogEntry) :
      absentSince (I.workerID leaseID) since (.call (.note (.evaluated workers now)) () :: past) = true →
      inventoryAbsenceGrace ≤ now - since → Grounds s I leaseID (.call (.note (.evaluated workers now)) () :: past)
  | dangling (now : Int) (past : List LogEntry) : 0 < s.danglingTimeout → launchedIdle (runnerName leaseID) past = true →
      I.createdAt leaseID ≠ 0 → s.danglingTimeout < now - I.createdAt leaseID → Grounds s I leaseID (.call .now now :: past)

def Evidence (s : Scaler) (I : Identity) (leaseID : String) (log : List LogEntry) : Prop :=
  ∃ past, past <:+ log ∧ Grounds s I leaseID past

section Log

variable {s : Scaler} {I : Identity} {leaseID name : String} {log log' new : List LogEntry} {entry : LogEntry}

theorem Grounds.evidence (h : Grounds s I leaseID log) : Evidence s I leaseID log := ⟨log, List.suffix_rfl, h⟩

theorem Evidence.suffix (h : Evidence s I leaseID log) (hlog : log <:+ log') : Evidence s I leaseID log' := by
  obtain ⟨past, hpast, hgrounds⟩ := h
  exact ⟨past, hpast.trans hlog, hgrounds⟩

theorem Evidence.cons (h : Evidence s I leaseID log) (entry : LogEntry) : Evidence s I leaseID (entry :: log) :=
  h.suffix (List.suffix_cons entry log)

theorem launchedIdle_cons (h : launchedIdle name log = true) (hbooted : entry ≠ .booted)
    (hbusy : ∀ other answer, entry ≠ .call (.state (.markBusy other)) answer) :
    launchedIdle name (entry :: log) = true := by
  cases entry with
  | delivered event => exact h
  | booted => exact absurd rfl hbooted
  | call op answer =>
    cases op with
    | state op =>
      cases op with
      | add worker busy => simp [launchedIdle, h]
      | markBusy other => exact absurd rfl (hbusy other answer)
      | _ => exact h
    | _ => exact h

theorem launchedIdle_markBusy {other : String} (h : launchedIdle name log = true) (hne : other ≠ name)
    (answer : (Call.state (.markBusy other)).Ans) :
    launchedIdle name (.call (.state (.markBusy other)) answer :: log) = true := by
  simp [launchedIdle, h, hne]

theorem launchedIdle_append (h : launchedIdle name log = true) (hloud : ∀ entry ∈ new, entry.loud = false) :
    launchedIdle name (new ++ log) = true := by
  induction new with
  | nil => exact h
  | cons entry rest ih =>
    have hentry := hloud entry List.mem_cons_self
    refine launchedIdle_cons (ih fun e he => hloud e (List.mem_cons_of_mem entry he)) ?_ ?_
    · rintro rfl
      simp [LogEntry.loud] at hentry
    · rintro other answer rfl
      simp [LogEntry.loud, Call.loud] at hentry

theorem launchedIdle_booted {recent earlier : List LogEntry}
    (hadd : ∀ worker busy answer, .call (.state (.add worker busy)) answer ∈ recent → worker.runnerName ≠ name) :
    launchedIdle name (recent ++ .booted :: earlier) = false := by
  induction recent with
  | nil => rfl
  | cons entry rest ih =>
    have hrest := ih fun worker busy answer h => hadd worker busy answer (List.mem_cons_of_mem entry h)
    rw [List.cons_append]
    cases entry with
    | delivered event => exact hrest
    | booted => rfl
    | call op answer =>
      cases op with
      | state op =>
        cases op with
        | add worker busy => simp [launchedIdle, hrest, hadd worker busy answer List.mem_cons_self]
        | markBusy other => simp [launchedIdle, hrest]
        | _ => exact hrest
      | _ => exact hrest

variable {workerID : String} {since : Int}

theorem absentSince_cons (h : absentSince workerID since log = true)
    (hnote : ∀ workers now answer, entry ≠ .call (.note (.evaluated workers now)) answer) :
    absentSince workerID since (entry :: log) = true := by
  cases entry with
  | delivered event => exact h
  | booted => exact h
  | call op answer =>
    cases op with
    | note n =>
      cases n with
      | evaluated workers now => exact absurd rfl (hnote workers now answer)
      | identityMismatch leaseID => exact h
    | _ => exact h

theorem absentSince_append (h : absentSince workerID since log = true) (hloud : ∀ entry ∈ new, entry.loud = false) :
    absentSince workerID since (new ++ log) = true := by
  induction new with
  | nil => exact h
  | cons entry rest ih =>
    refine absentSince_cons (ih fun e he => hloud e (List.mem_cons_of_mem entry he)) ?_
    rintro workers now answer rfl
    have hquiet := hloud (.call (.note (.evaluated workers now)) answer) List.mem_cons_self
    simp [LogEntry.loud, Call.loud] at hquiet

theorem absentSince_evaluated {workers : List Worker} {now : Int} (h : absentSince workerID since log = true)
    (habsent : ∀ worker ∈ workers, worker.id ≠ workerID) :
    absentSince workerID since (.call (.note (.evaluated workers now)) () :: log) = true := by
  simp only [absentSince, Bool.and_eq_true, Bool.or_eq_true, List.all_eq_true, decide_eq_true_eq]
  exact ⟨habsent, Or.inr h⟩

theorem absentSince_now {workers : List Worker} {now : Int} (habsent : ∀ worker ∈ workers, worker.id ≠ workerID) :
    absentSince workerID now (.call (.note (.evaluated workers now)) () :: log) = true := by
  simp only [absentSince, Bool.and_eq_true, Bool.or_eq_true, List.all_eq_true, decide_eq_true_eq]
  exact ⟨habsent, Or.inl trivial⟩

end Log

end RunnerYard
