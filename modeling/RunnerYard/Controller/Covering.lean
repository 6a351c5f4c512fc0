import RunnerYard.Controller.Speculation

/-!
# What speculation covers

Two bounds on the runners that `speculate` starts through a placement. Counted against the jobs: while its launches run, the fleet stays within `maxWorkers`, and the idle runners in slots within the jobs that have not started. Counted against the workers that boot: over many passes it starts no more runners than there are such workers, as long as the idle workers that were not started speculatively cover the jobs.
-/

namespace RunnerYard

open Interaction
open Interaction.Prog (Safe Yields)

/-! ### The workers that `idleByStart` counts -/

namespace Scaler

variable (s : Scaler) (fast : String → Bool)

/-- The main scale set's workers that run a job or may run one. -/
def busyWorkers (state : WorkerState) : Nat := (state.idleByStart (s.routeWorker s.mainRoute).accepts fast).1

/-- The main scale set's observed idle workers in slots. -/
def idleFast (state : WorkerState) : Nat := (state.idleByStart (s.routeWorker s.mainRoute).accepts fast).2.1

/-- The main scale set's observed idle workers elsewhere. -/
def idleSlow (state : WorkerState) : Nat := (state.idleByStart (s.routeWorker s.mainRoute).accepts fast).2.2

def isBusy (record : WorkerRecord) : Bool := (record.busy || !record.observed) && (s.routeWorker s.mainRoute).accepts record.worker

def isIdle (start : Bool) (record : WorkerRecord) : Bool :=
  fast record.worker.id = start && ((record.observed && !record.busy) && (s.routeWorker s.mainRoute).accepts record.worker)

variable {s fast}

theorem busyWorkers_eq (state : WorkerState) : s.busyWorkers fast state = state.workers.rows.countP s.isBusy := List.countP_filter

theorem idleFast_eq (state : WorkerState) : s.idleFast fast state = state.workers.rows.countP (s.isIdle fast true) := by
  unfold idleFast WorkerState.idleByStart
  dsimp only
  rw [List.countP_filter, List.countP_filter]
  refine List.countP_congr fun record _ => ?_
  simp [isIdle, and_assoc]

theorem idleSlow_eq (state : WorkerState) : s.idleSlow fast state = state.workers.rows.countP (s.isIdle fast false) := by
  unfold idleSlow WorkerState.idleByStart
  dsimp only
  rw [List.countP_filter, List.countP_filter]
  refine List.countP_congr fun record _ => ?_
  simp [isIdle, and_assoc]

end Scaler

theorem WorkerState.idleByStart_congr {state : WorkerState} {includes : Worker → Bool} {fast fast' : String → Bool}
    (h : ∀ record ∈ state.workers.rows, fast record.worker.id = fast' record.worker.id) :
    state.idleByStart includes fast = state.idleByStart includes fast' := by
  have hmine : ∀ record ∈ (state.workers.rows.filter fun record => includes record.worker).filter fun record => record.observed && !record.busy,
      fast record.worker.id = fast' record.worker.id := fun record hmem => h record (List.mem_filter.mp (List.mem_filter.mp hmem).1).1
  unfold idleByStart
  simp only [Prod.mk.injEq, true_and]
  constructor
  · exact List.countP_congr fun record hmem => by rw [hmine record hmem]
  · exact List.countP_congr fun record hmem => by rw [hmine record hmem]

def Call.entry : Call → Option WorkerRecord
  | state op => op.entry
  | _ => none

def Call.added : Call → Option Worker
  | state (.add worker _) => some worker
  | _ => none

def Call.countsIdle : Call → Bool
  | state (.idleByStart _) => true
  | _ => false

def assignedJobs (log : List LogEntry) : Option Int :=
  (currentEvent log).bind fun event => match event with
    | .desiredRunnerCount false assigned => some assigned
    | _ => none

theorem assignedJobs_of_event {log : List LogEntry} {assigned : Int} (h : currentEvent log = some (.desiredRunnerCount false assigned)) :
    assignedJobs log = some assigned := by
  rw [assignedJobs, h]
  rfl

theorem World.countP_le {op : Call} {choice : Choice} {w w' : World} {answer : op.Ans} (p : WorkerRecord → Bool)
    (hbusy : ∀ name, op = .state (.markBusy name) → ∀ record : WorkerRecord, p { record with busy := true, observed := true, missingSince := 0 } = true →
      p record = true)
    (hmissing : ∀ (record : WorkerRecord) (at_ : Int), p { record with missingSince := at_ } = true → p record = true)
    (h : World.exec op choice w = some (answer, w')) :
    w'.state.workers.rows.countP p ≤ w.state.workers.rows.countP p + (op.entry.any p).toNat := by
  by_cases hpart : op.part = .state
  · cases op <;> simp only [Call.part, reduceCtorEq] at hpart
    rename_i op
    obtain ⟨w₁, heffect, rfl⟩ := World.exec_eq_some_iff.mp h
    obtain ⟨⟨answer', state⟩, hstate, heq⟩ := Option.map_eq_some_iff.mp heffect
    obtain ⟨-, rfl⟩ := Prod.mk.inj heq
    exact StateOp.countP_le p (fun name heq => hbusy name (by rw [heq])) hmissing hstate
  · rw [(World.exec_sameBut h).state hpart]
    exact Nat.le_add_right _ _

namespace Speculation

/-! ### Courses -/

variable {course : Course} {leaseID : String} {tier : Tier}

theorem countP_set {p : Course → Bool} {courses : List Course} {i : Nat} (hi : courses[i]? = some course) (course' : Course) :
    (courses.set i course').countP p + (p course).toNat = courses.countP p + (p course').toNat := by
  obtain ⟨hlt, rfl⟩ := List.getElem?_eq_some_iff.mp hi
  rw [List.countP_set hlt]
  cases h : p courses[i] with
  | false => cases p course' <;> simp
  | true =>
    have hone : 1 ≤ courses.countP p := List.countP_pos_iff.mpr ⟨_, List.getElem_mem hlt, h⟩
    cases p course' <;> simp <;> omega

def unentered (course : Course) : Bool := course.phase ≠ .entered

def unlaunched (course : Course) : Bool := course.phase = .before

/-! ### The jobs -/

/-- What a placement answers: spare launches as `LaunchSpare` may, and which workers are in slots. -/
def Answers (p : Placement) : Call → Choice → World → Prop
  | .launch .spare lease, .launch answer _, _ => ∃ trace, Yields (p.launchSpare lease) trace answer
  | .state (.idleByStart _), .fast workerIDs, w => ∀ record ∈ w.state.workers.rows, workerIDs.contains record.worker.id = p.fast record.worker.id
  | _, _, _ => True

variable {s : Scaler} {p : Placement} {w w' : World} {op : Call} {choice : Choice} {answer : op.Ans}

/-- With `more` runners to come, the fleet stays within its limit, and the idle runners in slots within the jobs of the pass that have not started. -/
def Covered (s : Scaler) (p : Placement) (more : Nat) (w : World) : Prop :=
  ∃ assigned, currentEvent w.log = some (.desiredRunnerCount false assigned) ∧ (w.state.count : Int) + more ≤ s.maxWorkers ∧
    (s.idleFast p.fast w.state : Int) + more ≤ assigned - s.busyWorkers p.fast w.state

theorem Covered.mono {more fewer : Nat} (h : Covered s p more w) (hle : fewer ≤ more) : Covered s p fewer w := by
  obtain ⟨assigned, hevent, hcount, hidle⟩ := h
  exact ⟨assigned, hevent, by omega, by omega⟩

theorem Covered.env {more : Nat} (h : Covered s p more w) (henv : Env w w') : Covered s p more w' := by
  unfold Covered
  rw [henv.log, henv.state]
  exact h

theorem entry_of_permits (h : Course.permits tier leaseID op course) (answer : op.Ans) :
    (∀ name, op ≠ .state (.markBusy name)) ∧ ∀ record ∈ op.entry, course.phase = .confirmed ∧ record.busy = false ∧ record.observed = true ∧
      (Course.after op answer course).phase = .entered ∧ course.launched = some record.worker.id := by
  constructor
  · rintro name rfl
    simp [Course.permits, Call.tidy] at h
  · intro record hrecord
    cases op with
    | state op =>
      cases op with
      | add worker busy =>
        obtain ⟨hphase, hlaunched, rfl⟩ := h
        obtain rfl : { worker, busy := false, observed := true } = record := by simpa [Call.entry, StateOp.entry] using hrecord
        exact ⟨hphase, rfl, rfl, rfl, hlaunched⟩
      | adopt worker => simp [Course.permits, Call.tidy] at h
      | _ => simp [Call.entry, StateOp.entry] at hrecord
    | _ => simp [Call.entry] at hrecord

theorem Covered.step {more more' : Nat} (h : Covered s p more w)
    (hpermits : Course.permits tier leaseID op course) (hexec : World.exec op choice w = some (answer, w'))
    (hmore : more' + op.entry.isSome.toNat ≤ more) : Covered s p more' w' := by
  obtain ⟨assigned, hevent, hcount, hidle⟩ := h
  obtain ⟨hmark, hentry⟩ := entry_of_permits hpermits answer
  have hle : ∀ q : WorkerRecord → Bool, (∀ (record : WorkerRecord) (at_ : Int), q { record with missingSince := at_ } = true → q record = true) →
      w'.state.workers.rows.countP q ≤ w.state.workers.rows.countP q + (op.entry.any q).toNat := fun q hq =>
    World.countP_le q (fun name heq => absurd heq (hmark name)) hq hexec
  have hone : ∀ q : WorkerRecord → Bool, (op.entry.any q).toNat ≤ op.entry.isSome.toNat := by
    intro q
    cases op.entry with
    | none => exact le_refl _
    | some record => exact Bool.toNat_le _
  have hfleet := hle (fun _ => true) fun _ _ _ => rfl
  have hfast := hle (s.isIdle p.fast true) fun _ _ h => h
  have hbusy := hle s.isBusy fun _ _ h => h
  have hnone : (op.entry.any s.isBusy).toNat = 0 := by
    cases hop : op.entry with
    | none => rfl
    | some record =>
      obtain ⟨-, hidle, hobserved, -⟩ := hentry record hop
      simp [Scaler.isBusy, hidle, hobserved]
  have hfleet₁ := hone fun _ => true
  have hfast₁ := hone (s.isIdle p.fast true)
  rw [List.countP_true] at hfleet
  refine ⟨assigned, ?_, ?_, ?_⟩
  · rw [World.exec_log hexec]
    exact hevent
  · simp only [WorkerState.count, Table.size] at hcount ⊢
    omega
  · rw [Scaler.idleFast_eq, Scaler.busyWorkers_eq] at hidle ⊢
    omega

/-- The runners of a speculative pool are covered, and those it has launched are in slots. -/
def covering (s : Scaler) (p : Placement) : Share where
  allowed := Answers p
  inv _ := True
  bound req remaining courses w := (req.tier = .spare → req.spare = true) ∧ (req.spare = true →
    Covered s p (remaining + courses.countP unentered) w ∧ ∀ course ∈ courses, ∀ id ∈ course.launched, p.InSpare id)

theorem unentered_after (hpermits : Course.permits tier leaseID op course)
    (hentry : op.entry = none) (answer : op.Ans) : unentered (Course.after op answer course) = unentered course := by
  unfold unentered
  rw [Course.after_phase]
  cases op with
  | launch place lease => simp [Phase.after, hpermits.1]
  | adopt leaseID startedAt => cases answer <;> simp [Phase.after, hpermits.1]
  | state op =>
    cases op with
    | add worker busy => simp [Call.entry, StateOp.entry] at hentry
    | _ => rfl
  | _ => rfl

theorem countP_unentered {courses : List Course} {i : Nat} (hi : courses[i]? = some course)
    (hpermits : Course.permits tier leaseID op course) (answer : op.Ans) :
    (courses.set i (Course.after op answer course)).countP unentered + op.entry.isSome.toNat = courses.countP unentered := by
  have hset := countP_set (p := unentered) hi (Course.after op answer course)
  cases hentry : op.entry with
  | some record =>
    obtain ⟨hphase, -, -, hafter, -⟩ := (entry_of_permits hpermits answer).2 record hentry
    have hbefore : unentered course = true := by simp [unentered, hphase]
    have hthen : unentered (Course.after op answer course) = false := by simp [unentered, hafter]
    rw [hbefore, hthen] at hset
    exact hset
  | none =>
    rw [unentered_after hpermits hentry answer] at hset
    exact Nat.add_right_cancel hset

theorem inSpare_after (hpermits : Course.permits .spare leaseID op course) (hallowed : Answers p op choice w)
    (hexec : World.exec op choice w = some (answer, w')) (hlaunched : ∀ id ∈ course.launched, p.InSpare id) :
    ∀ id ∈ (Course.after op answer course).launched, p.InSpare id := by
  cases op with
  | launch place lease =>
    obtain ⟨-, rfl, -⟩ := hpermits
    obtain ⟨created, rfl, -⟩ := World.exec_launch hexec
    obtain ⟨trace, hyields⟩ := hallowed
    cases answer with
    | error failure => exact hlaunched
    | ok worker =>
      rintro id ⟨⟩
      exact Placement.inSpare_of_launchSpare hyields
  | _ => exact hlaunched

theorem Found.idleByStart_eq {allowed : Call → Choice → World → Prop} {assigned room : Int} {workerIDs : List String} {needed : Nat} {before : World}
    (h : Found s allowed assigned room workerIDs needed before w)
    (hanswers : Answers p (.state (.idleByStart (s.routeWorker s.mainRoute))) (.fast workerIDs) before) :
    w.state.idleByStart (s.routeWorker s.mainRoute).accepts workerIDs.contains = w.state.idleByStart (s.routeWorker s.mainRoute).accepts p.fast := by
  apply WorkerState.idleByStart_congr
  rw [h.state]
  exact hanswers

theorem fair_covering (s : Scaler) (p : Placement) : (covering s p).Fair s where
  inv_env _ _ := trivial
  inv_step _ _ _ _ := trivial
  inv_boot _ _ := trivial
  inv_deliver _ := trivial
  env h henv := ⟨h.1, fun hspare => ⟨(h.2 hspare).1.env henv, (h.2 hspare).2⟩⟩
  spawn := by
    rintro req remaining courses w ⟨htier, hbound⟩
    refine ⟨htier, fun hspare => ?_⟩
    obtain ⟨hcovered, hlaunched⟩ := hbound hspare
    refine ⟨hcovered.mono ?_, ?_⟩
    · rw [List.countP_append]
      simp [unentered]
      omega
    · intro course hcourse
      rcases List.mem_append.mp hcourse with hold | hnew
      · exact hlaunched course hold
      · simp [List.mem_singleton.mp hnew]
  halt := by
    rintro req remaining courses w ⟨htier, hbound⟩
    exact ⟨htier, fun hspare => ⟨(hbound hspare).1.mono (by omega), (hbound hspare).2⟩⟩
  finish := by
    rintro req remaining courses w i ⟨htier, hbound⟩
    refine ⟨htier, fun hspare => ⟨(hbound hspare).1.mono ?_, fun course hcourse => (hbound hspare).2 course (List.mem_of_mem_eraseIdx hcourse)⟩⟩
    have hle := (List.eraseIdx_sublist courses i).countP_le (p := unentered)
    omega
  step := by
    rintro req remaining courses w w' i course leaseID op choice answer - ⟨htier, hbound⟩ hi hpermits hallowed hexec
    refine ⟨trivial, htier, fun hspare => ?_⟩
    obtain ⟨hcovered, hlaunched⟩ := hbound hspare
    have hcount := countP_unentered hi hpermits answer
    refine ⟨hcovered.step hpermits hexec (by omega), fun course' hcourse id hid => ?_⟩
    rcases List.mem_or_eq_of_mem_set hcourse with hold | rfl
    · exact hlaunched course' hold id hid
    · have htier : req.tier = .spare := if_pos hspare
      rw [htier] at hpermits
      exact inSpare_after hpermits hallowed hexec (hlaunched course (List.mem_of_getElem? hi)) id hid
  regular := by
    intro req w _ hspare hroute
    refine ⟨fun htier => ?_, fun h => ?_⟩
    · simp [LaunchRequest.tier, hspare, hroute] at htier
    · simp [hspare] at h
  speculative := by
    intro req w before assigned room workerIDs _ hspare hfound
    refine ⟨fun _ => hspare, fun _ => ⟨⟨assigned, hfound.event, ?_⟩, by simp⟩⟩
    have hneeded := hfound.needed
    have hpositive := hfound.positive
    rw [hfound.idleByStart_eq hfound.counted] at hneeded
    simp only [Scaler.speculativeCount] at hneeded
    simp only [List.countP_nil, Scaler.idleFast, Scaler.busyWorkers]
    omega

/-! ### The workers that boot -/

/-- No worker is entered that boots outside the pools. -/
def InSlots (p : Placement) (op : Call) : Prop := ∀ worker ∈ op.added, p.fast worker.id = true

instance (p : Placement) (op : Call) : Decidable (InSlots p op) := inferInstanceAs (Decidable (∀ worker ∈ op.added, p.fast worker.id = true))

/-- When `speculate` counts the idle workers, those it has not started itself since `starts` cover the jobs that have not started. -/
def Attended (s : Scaler) (p : Placement) (starts : Nat) (op : Call) (w : World) : Prop :=
  op.countsIdle = true → ∀ assigned ∈ assignedJobs w.log,
    assigned - s.busyWorkers p.fast w.state + spareStarts w.log ≤ s.idleFast p.fast w.state + s.idleSlow p.fast w.state + starts

instance (s : Scaler) (p : Placement) (starts : Nat) (op : Call) (w : World) : Decidable (Attended s p starts op w) :=
  inferInstanceAs (Decidable (op.countsIdle = true → ∀ assigned ∈ assignedJobs w.log,
    assigned - s.busyWorkers p.fast w.state + spareStarts w.log ≤ s.idleFast p.fast w.state + s.idleSlow p.fast w.state + starts))

def booting (s : Scaler) (p : Placement) (starts slow : Nat) : Share where
  allowed op choice w := Answers p op choice w ∧ InSlots p op ∧ Attended s p starts op w
  inv w := s.idleSlow p.fast w.state ≤ slow ∧ spareStarts w.log ≤ starts + slow
  bound req remaining courses w := (req.tier = .spare → req.spare = true) ∧ (req.spare = true →
    spareStarts w.log + (remaining + courses.countP unlaunched) ≤ starts + slow)

theorem spareStarts_of_ne {log : List LogEntry} (hop : ∀ lease, op ≠ .launch .spare lease) : spareStarts (.call op answer :: log) = spareStarts log := by
  refine List.countP_cons_of_neg ?_
  unfold LogEntry.startsSpare
  split
  · rename_i heq
    injection heq with hlaunch
    exact absurd hlaunch (hop _)
  · simp

theorem spareStarts_call_le (op : Call) (answer : op.Ans) (log : List LogEntry) :
    spareStarts (.call op answer :: log) ≤ spareStarts log + op.isLaunch.toNat := by
  cases hop : op.isLaunch with
  | false => exact (spareStarts_call hop answer log).le
  | true =>
    rw [spareStarts, List.countP_cons]
    split <;> simp [spareStarts]

theorem idleSlow_le (hslots : InSlots p op) (hexec : World.exec op choice w = some (answer, w')) :
    s.idleSlow p.fast w'.state ≤ s.idleSlow p.fast w.state := by
  rw [Scaler.idleSlow_eq, Scaler.idleSlow_eq]
  have hle := World.countP_le (s.isIdle p.fast false) (fun _ _ _ h => by simp [Scaler.isIdle] at h) (fun _ _ h => h) hexec
  have hnone : (op.entry.any (s.isIdle p.fast false)).toNat = 0 := by
    cases op with
    | state op =>
      cases op with
      | add worker busy => simp [Call.entry, StateOp.entry, Scaler.isIdle, hslots worker rfl]
      | adopt worker => simp [Call.entry, StateOp.entry, Scaler.isIdle]
      | _ => rfl
    | _ => rfl
  omega

theorem countP_unlaunched {courses : List Course} {i : Nat} (hi : courses[i]? = some course)
    (hpermits : Course.permits tier leaseID op course) (answer : op.Ans) :
    (courses.set i (Course.after op answer course)).countP unlaunched + op.isLaunch.toNat = courses.countP unlaunched := by
  have hset := countP_set (p := unlaunched) hi (Course.after op answer course)
  have hcourse : (unlaunched (Course.after op answer course)).toNat + op.isLaunch.toNat = (unlaunched course).toNat := by
    unfold unlaunched
    rw [Course.after_phase]
    cases op with
    | launch place lease => simp [Phase.after, hpermits.1, Call.isLaunch]
    | adopt leaseID startedAt => cases answer <;> simp [Phase.after, hpermits.1, Call.isLaunch]
    | state op =>
      cases op with
      | add worker busy => simp [Phase.after, hpermits.1, Call.isLaunch]
      | _ => rfl
    | _ => rfl
  omega

theorem fair_booting (s : Scaler) (p : Placement) (starts slow : Nat) : (booting s p starts slow).Fair s where
  inv_env h henv := by
    refine ⟨?_, ?_⟩
    · rw [henv.state]
      exact h.1
    · rw [henv.log]
      exact h.2
  inv_step := by
    rintro op choice w answer w' ⟨hslow, hstarts⟩ hop ⟨-, hslots, -⟩ hexec
    refine ⟨(idleSlow_le hslots hexec).trans hslow, ?_⟩
    rw [World.exec_log hexec, spareStarts_call hop]
    exact hstarts
  inv_boot := by
    rintro disk w w' ⟨-, hstarts⟩ hboot
    obtain ⟨hstate, hlog⟩ := Scaler.boot_state hboot
    refine ⟨?_, ?_⟩
    · rw [hstate]
      exact Nat.zero_le _
    · rw [hlog]
      exact hstarts
  inv_deliver h := h
  env h henv := ⟨h.1, fun hspare => by rw [henv.log]; exact h.2 hspare⟩
  spawn := by
    rintro req remaining courses w ⟨htier, hbound⟩
    refine ⟨htier, fun hspare => ?_⟩
    have hle := hbound hspare
    rw [List.countP_append]
    simp [unlaunched]
    omega
  halt := by
    rintro req remaining courses w ⟨htier, hbound⟩
    exact ⟨htier, fun hspare => by have hle := hbound hspare; omega⟩
  finish := by
    rintro req remaining courses w i ⟨htier, hbound⟩
    refine ⟨htier, fun hspare => ?_⟩
    have hle := hbound hspare
    have herase := (List.eraseIdx_sublist courses i).countP_le (p := unlaunched)
    omega
  step := by
    rintro req remaining courses w w' i course leaseID op choice answer ⟨hslow, hstarts⟩ ⟨htier, hbound⟩ hi hpermits ⟨-, hslots, -⟩ hexec
    have hcount := countP_unlaunched hi hpermits answer
    have hslow' := (idleSlow_le (s := s) hslots hexec).trans hslow
    cases hspare : req.spare with
    | false =>
      -- A pool of regular launches starts no speculative runner.
      have hsame : spareStarts w'.log = spareStarts w.log := by
        rw [World.exec_log hexec]
        apply spareStarts_of_ne
        rintro lease rfl
        rw [htier hpermits.2.1.symm] at hspare
        simp at hspare
      exact ⟨⟨hslow', hsame ▸ hstarts⟩, htier, fun h => by simp [h] at hspare⟩
    | true =>
      have hlog : spareStarts w'.log ≤ spareStarts w.log + op.isLaunch.toNat := by
        rw [World.exec_log hexec]
        exact spareStarts_call_le op answer w.log
      have hle := hbound hspare
      exact ⟨⟨hslow', by omega⟩, htier, fun _ => by omega⟩
  regular := by
    intro req w _ hspare hroute
    refine ⟨fun htier => ?_, fun h => ?_⟩
    · simp [LaunchRequest.tier, hspare, hroute] at htier
    · simp [hspare] at h
  speculative := by
    rintro req w before assigned room workerIDs ⟨hslow, -⟩ hspare hfound
    obtain ⟨hanswers, -, hattended⟩ := hfound.counted
    refine ⟨fun _ => hspare, fun _ => ?_⟩
    have hneeded := hfound.needed
    have hpositive := hfound.positive
    have hjobs := hattended rfl assigned (assignedJobs_of_event (hfound.same ▸ hfound.event))
    rw [hfound.idleByStart_eq hanswers] at hneeded
    rw [← hfound.state, ← hfound.starts] at hjobs
    simp only [Scaler.speculativeCount] at hneeded
    simp only [Scaler.idleFast, Scaler.idleSlow, Scaler.busyWorkers, List.countP_nil] at hjobs hslow ⊢
    omega

end Speculation

/-! ### Whole runs -/

def Config.speculating (c : Config) : Bool :=
  match c.process with
  | .busy _ (.pool req _ _ _ _ _) => req.spare
  | _ => false

def Label.isPass : Label → Bool
  | .deliver (.desiredRunnerCount false _) | .env _ | .move _ | .finish => true
  | _ => false

def Choice.hasRoom : Choice → Bool
  | .room free => 0 < free
  | _ => true

namespace Speculation

abbrev Placed (s : Scaler) (p : Placement) : Config → Label → Prop := (covering s p).Admits s

theorem configSafe_of_isIdle {sh : Share} {c : Config} (hinv : sh.inv c.world) (h : c.isIdle = true) : sh.ConfigSafe c := by
  refine ⟨hinv, ?_⟩
  rw [Config.process_of_isIdle h]
  trivial

theorem Share.ConfigSafe.maker {sh : Share} {s : Scaler} {c : Config} {label : Label} {op : Call} {choice : Choice} (h : sh.Fair s) (hsafe : sh.ConfigSafe c)
    (hmade : c.made label = some (op, choice)) : op.isLaunch = false ∧ c.speculating = false ∨
      ∃ req remaining courses course leaseID, ∃ i : Nat, c.speculating = req.spare ∧ sh.bound req remaining courses c.world ∧
        courses[i]? = some course ∧ Course.permits req.tier leaseID op course := by
  obtain ⟨hinv, hprocess⟩ := hsafe
  obtain ⟨world, process⟩ := c
  unfold Config.made at hmade
  split at hmade
  · cases process with
    | down => simp at hmade
    | idle => simp at hmade
    | busy recovering doing =>
      rcases Escort.maker_of_made h.lawful hprocess hinv hmade with ⟨hsolo, p, rfl⟩ | ⟨req, spawned, remaining, threads, sum, next, start, courses, leaseID, course, i, rfl, hpool, hi, hguard⟩
      · exact Or.inl ⟨hsolo, rfl⟩
      · exact Or.inr ⟨req, remaining, courses, course, leaseID, i, rfl, hpool.2.2, hi, hguard⟩
  · simp at hmade

theorem Share.ConfigSafe.bound {sh : Share} {c : Config} (hsafe : sh.ConfigSafe c) (h : c.speculating = true) :
    ∃ req remaining courses, req.spare = true ∧ sh.bound req remaining courses c.world := by
  obtain ⟨-, hprocess⟩ := hsafe
  obtain ⟨world, process⟩ := c
  cases process with
  | down => simp [Config.speculating] at h
  | idle => simp [Config.speculating] at h
  | busy recovering doing =>
    cases doing with
    | main p => simp [Config.speculating] at h
    | pool req spawned remaining threads sum next =>
      obtain ⟨start, members, -, hpool, -⟩ := hprocess
      exact ⟨req, remaining, members.map Prod.snd, h, hpool.2.2⟩

/-- While speculative launches run, the pass is one of the main scale set, the fleet is within its limit, and idle runners in slots within the jobs that have not started. Only such launches use spare room, on speculative pools, and they create or start no host. -/
theorem speculation_never_over_covers (s : Scaler) (p : Placement) (c₀ c : Config) (hidle : c₀.isIdle = true) (hreach : Reaches s (Placed s p) c₀ c) :
    (c.speculating = true → ∃ assigned, currentEvent c.world.log = some (.desiredRunnerCount false assigned) ∧ (c.world.state.count : Int) ≤ s.maxWorkers ∧
      (s.idleFast p.fast c.world.state : Int) ≤ assigned - s.busyWorkers p.fast c.world.state) ∧
    (∀ label op choice, c.made label = some (op, choice) → (∀ lease, op = .launch .spare lease → c.speculating = true) ∧
      ∀ worker busy, op = .state (.add worker busy) → c.speculating = true → busy = false ∧ p.InSpare worker.id ∧ p.fast worker.id = true) ∧
    ∀ lease trace result, Yields (p.launchSpare lease) trace result → ∀ event ∈ trace, ∃ tier ∈ p.spare, ∃ op, event.1 = .pool tier.name op ∧
      ∀ (cfg : Pool.Config) (choice : Pool.Choice) (w w' : Pool.World) (answer : op.Ans),
        Pool.World.exec cfg op choice w = some (answer, w') → Pool.SameHosts w w' ∧ op.forks answer = [] := by
  have hsafe : (covering s p).ConfigSafe c := (configSafe_of_isIdle trivial hidle).reaches (fair_covering s p) hreach
  refine ⟨fun hspeculating => ?_, fun label op choice hmade => ?_, fun lease trace result hyields event hevent => ?_⟩
  · obtain ⟨req, remaining, courses, hspare, -, hbound⟩ := hsafe.bound hspeculating
    obtain ⟨assigned, hevent, hcount, hfast⟩ := (hbound hspare).1
    exact ⟨assigned, hevent, by omega, by omega⟩
  · rcases hsafe.maker (fair_covering s p) hmade with ⟨hlaunch, hquiet⟩ | ⟨req, remaining, courses, course, leaseID, i, hpool, ⟨htier, hbound⟩, hi, hpermits⟩
    · refine ⟨?_, fun _ _ _ hspeculating => absurd hspeculating (by simp [hquiet])⟩
      rintro lease rfl
      simp [Call.isLaunch] at hlaunch
    · constructor
      · rintro lease rfl
        rw [hpool]
        exact htier hpermits.2.1.symm
      · rintro worker busy rfl hspeculating
        obtain ⟨-, hlaunched, hbusy⟩ := hpermits
        have hslot : p.InSpare worker.id := (hbound (hpool ▸ hspeculating)).2 course (List.mem_of_getElem? hi) _ hlaunched
        exact ⟨hbusy, hslot, Placement.fast_of_inSpare hslot⟩
  · obtain ⟨tier, htier, op, heq, hlaunching⟩ := (p.launchSpare_calls lease).of_yields hyields event hevent
    exact ⟨tier, htier, op, heq, fun cfg choice w w' answer hexec => Pool.sameHosts_of_launching hlaunching hexec⟩

/-- The steps that enter no booting worker outside the pools, and count idle workers only while the others cover the jobs. -/
def Attends (s : Scaler) (p : Placement) (starts : Nat) (c : Config) (label : Label) : Prop :=
  ∀ made ∈ c.made label, InSlots p made.1 ∧ Attended s p starts made.1 c.world

instance (s : Scaler) (p : Placement) (starts : Nat) (c : Config) (label : Label) : Decidable (Attends s p starts c label) :=
  inferInstanceAs (Decidable (∀ made ∈ c.made label, InSlots p made.1 ∧ Attended s p starts made.1 c.world))

/-- Passes of the main scale set between job events, during which no worker comes to boot outside the pools and a slot is always free. -/
def Passes (p : Placement) (c : Config) (label : Label) : Prop :=
  label.isPass = true ∧ ∀ made ∈ c.made label, InSlots p made.1 ∧ made.2.hasRoom = true

instance (p : Placement) (c : Config) (label : Label) : Decidable (Passes p c label) :=
  inferInstanceAs (Decidable (_ ∧ ∀ made ∈ c.made label, InSlots p made.1 ∧ made.2.hasRoom = true))

/-! ### A deployment -/

end Speculation

namespace Demo

def tiers : Placement where
  tiers := [{ name := "small", compute := .pool { Pool.Demo.small with speculative := true } }, { name := "fly", compute := .machines }]
  valid := by decide
  distinct := by decide
  launching := rfl

def racing : Scaler := { scaler with maxWorkers := 4, speculator := true }

def slow : Worker := { id := "fly:1", leaseID := "1f2e3d4c", runnerName := runnerName "1f2e3d4c", createdAt := 3 * Duration.hour }

def spare (leaseID : String) : Worker :=
  { id := "small:" ++ leaseID, leaseID, runnerName := runnerName leaseID, runnerID := 7, runnerScaleSetID := 1, createdAt := 3 * Duration.hour }

def idleRecord (worker : Worker) : WorkerRecord := { worker, observed := true }

def waiting : Config where
  world := { start.world with state := { WorkerState.empty with workers := Table.empty.put (idleRecord slow) }, fleet := [slow] }
  process := .idle

def counting (skipped : Nat) (inSlots : List String) : List Label := calls [(skipped, .room 2), (0, .fast inSlots), (0, .none)] ++ [.move .enter]

def sparing (leaseID : String) : List Label :=
  .move (.spawn leaseID) :: threads [(1, written), (3, .runner (.ok none)), (1, written),
    (4, .jit (.ok (some { runner := some { id := 7, name := runnerName leaseID }, encodedJITConfig := "jit" })) (some { id := 7, name := runnerName leaseID })),
    (0, written), (2, .launch (.ok (spare leaseID)) (some (spare leaseID)))]

def failing (leaseID : String) : List Label :=
  [.move .enter, .move (.spawn leaseID)] ++ threads [(1, written), (3, .runner (.error (.transient (.text "timeout")))), (0, written)] ++ [.move (.finish 0)]

/-- One job is assigned, for which the worker boots; a runner is started for it in a slot. -/
def racingLabels : List Label :=
  .deliver (.desiredRunnerCount false 1) :: calls [(1, listed [slow]), (1, .order [idleRecord slow])] ++ counting 18 [] ++ sparing "3a3b3c3d"

/-- Three jobs are assigned, two of which have no worker; their launches fail, and both passes start a runner in a slot. -/
def failingLabels : List Label :=
  .deliver (.desiredRunnerCount false 3) :: calls [(1, listed [slow]), (1, .order [idleRecord slow]), (17, .none)] ++
    failing "2a2b2c2d" ++ [.move .halt, .move .leave] ++ counting 1 [] ++ sparing "3a3b3c3d" ++
    threads [(1, written), (1, written), (9, .none)] ++ [.move (.finish 0), .move .leave, .finish] ++
  .deliver (.desiredRunnerCount false 3) :: calls [(1, listed [slow, spare "3a3b3c3d"]), (1, .order [idleRecord slow, idleRecord (spare "3a3b3c3d")]), (20, .none)] ++
    failing "4a4b4c4d" ++ [.move .leave] ++ counting 1 ["small:3a3b3c3d"] ++ sparing "5a5b5c5d"

/-- The pools answer a spare launch with a worker in a slot. -/
def answered : Call → Choice → World → Bool
  | .launch .spare lease, .launch (.ok worker) _, _ => worker.id = "small:" ++ worker.leaseID &&
      !(lease.id = "" || lease.runnerName = "" || lease.jitConfig = "" || '/' ∈ lease.id.toList)
  | .launch .spare _, .launch (.error _) _, _ => false
  | .state (.idleByStart _), .fast workerIDs, w => w.state.workers.rows.all fun record => workerIDs.contains record.worker.id = tiers.fast record.worker.id
  | _, _, _ => true

end Demo

namespace Speculation

theorem answers_of_answered {op : Call} {choice : Choice} {w : World} (h : Demo.answered op choice w = true) : Answers Demo.tiers op choice w := by
  unfold Answers
  split
  · rename_i lease answer created
    cases answer with
    | error err => simp [Demo.answered] at h
    | ok worker =>
      simp only [Demo.answered, Bool.and_eq_true, decide_eq_true_eq, Bool.not_eq_true'] at h
      obtain ⟨hid, hlease⟩ := h
      obtain ⟨trace, htrace⟩ := Placement.exists_launchSpare (p := Demo.tiers) rfl rfl hlease { worker with id := worker.leaseID }
      have hworker : worker = { worker with id := "small:" ++ worker.leaseID } := by rw [← hid]
      exact ⟨trace, hworker ▸ htrace⟩
  · simpa [Demo.answered] using h
  · trivial

def Answered (c : Config) (label : Label) : Prop := label.isPass = true ∧ ∀ made ∈ c.made label, Demo.answered made.1 made.2 c.world = true

instance (c : Config) (label : Label) : Decidable (Answered c label) :=
  inferInstanceAs (Decidable (_ ∧ ∀ made ∈ c.made label, Demo.answered made.1 made.2 c.world = true))

theorem placed_of_answered {c : Config} {label : Label} (h : Answered c label) : Placed Demo.racing Demo.tiers c label := by
  obtain ⟨hpass, hanswered⟩ := h
  refine ⟨?_, fun made hmade => answers_of_answered (hanswered made hmade)⟩
  rintro event rfl
  unfold Label.isPass at hpass
  split at hpass
  · rename_i heq
    cases heq
    trivial
  all_goals simp_all

theorem speculation_never_over_covers_racing : ∃ c, Demo.racing.run Demo.racingLabels Demo.waiting = some c ∧ c.speculating = true ∧
    ∃ assigned, currentEvent c.world.log = some (.desiredRunnerCount false assigned) ∧ (c.world.state.count : Int) ≤ Demo.racing.maxWorkers ∧
      (Demo.racing.idleFast Demo.tiers.fast c.world.state : Int) ≤ assigned - Demo.racing.busyWorkers Demo.tiers.fast c.world.state := by
  have hrun : (Demo.racing.run Demo.racingLabels Demo.waiting).any (fun c => c.speculating) = true := by decide +kernel
  have hok : Demo.racing.Complies Answered Demo.racingLabels Demo.waiting := by decide +kernel
  obtain ⟨c, hc, hspeculating⟩ := (Option.any_eq_true _ _).mp hrun
  have hreach : Reaches Demo.racing (Placed Demo.racing Demo.tiers) Demo.waiting c :=
    (Reaches.of_run .start hok hc).mono fun _ _ h => placed_of_answered h
  exact ⟨c, hc, hspeculating, (speculation_never_over_covers Demo.racing Demo.tiers Demo.waiting c rfl hreach).1 hspeculating⟩

end Speculation

end RunnerYard
