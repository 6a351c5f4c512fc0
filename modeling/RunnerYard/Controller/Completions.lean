import RunnerYard.Controller.Effects

/-!
# Reports of missing completions

A worker that stops before GitHub reports its job finished is remembered, and if the message does not come in time `reconcile` reports the stop as a fault. The memory is kept apart from local state: `JobCompleted` takes a worker out of it at once, but out of local state only when its retirement is finished. A retirement that stays pending leaves the record in place, and a provider that still lists the worker has `reconcile` remember it once more.
-/

namespace RunnerYard

open Interaction

namespace LogEntry

def isBooted : LogEntry → Bool
  | booted => true
  | _ => false

def reports : LogEntry → List String
  | call (.state (.takeOverdue _)) overdue => overdue.map Departure.name
  | _ => []

def completes : LogEntry → Option String
  | call (.state (.takeDeparted name)) _ => some name
  | _ => none

def stops : LogEntry → Option String
  | call (.state (.markStopped record _ _)) _ => some record.name
  | _ => none

end LogEntry

def thisProcess (log : List LogEntry) : List LogEntry := log.takeWhile fun entry => !entry.isBooted

def reportedRunners (log : List LogEntry) : List String := (thisProcess log).flatMap LogEntry.reports

def completedRunners (log : List LogEntry) : List String := (thisProcess log).filterMap LogEntry.completes

def stoppedRunners (log : List LogEntry) : List String := (thisProcess log).filterMap LogEntry.stops

/-- No report names a runner twice, a runner that was reported before, or one whose `JobCompleted` was handled before. -/
def Truthful : List LogEntry → Prop
  | [] => True
  | entry :: earlier =>
    (entry.reports.Nodup ∧ ∀ name ∈ entry.reports, name ∉ reportedRunners earlier ∧ name ∉ completedRunners earlier) ∧ Truthful earlier

def Call.awaits : Call → Option String
  | .state (.markStopped record _ true) => some record.name
  | _ => none

/-- A runner whose completion is to be awaited is remembered as stopped already, or it stops for the first time and its `JobCompleted` was not handled. -/
def StopsOnce (w : World) (op : Call) : Prop :=
  ∀ name ∈ op.awaits, (w.state.departed.get name).any (·.stopped) = true ∨ name ∉ stoppedRunners w.log ∧ name ∉ completedRunners w.log

section Log

variable {entry : LogEntry} {log : List LogEntry}

theorem thisProcess_cons (h : entry.isBooted = false) : thisProcess (entry :: log) = entry :: thisProcess log :=
  List.takeWhile_cons_of_pos (by rw [h]; rfl)

theorem reportedRunners_cons (h : entry.isBooted = false) : reportedRunners (entry :: log) = entry.reports ++ reportedRunners log := by
  rw [reportedRunners, thisProcess_cons h, List.flatMap_cons, reportedRunners]

theorem completedRunners_cons (h : entry.isBooted = false) : completedRunners (entry :: log) = entry.completes.toList ++ completedRunners log := by
  rw [completedRunners, thisProcess_cons h, completedRunners]
  cases hcompletes : entry.completes with
  | none => rw [List.filterMap_cons_none hcompletes]; rfl
  | some name => rw [List.filterMap_cons_some hcompletes]; rfl

theorem stoppedRunners_cons (h : entry.isBooted = false) : stoppedRunners (entry :: log) = entry.stops.toList ++ stoppedRunners log := by
  rw [stoppedRunners, thisProcess_cons h, stoppedRunners]
  cases hstops : entry.stops with
  | none => rw [List.filterMap_cons_none hstops]; rfl
  | some name => rw [List.filterMap_cons_some hstops]; rfl

end Log

instance (w : World) (op : Call) : Decidable (StopsOnce w op) := inferInstanceAs (Decidable (∀ name ∈ op.awaits, _))

/-- A runner whose completion is awaited was remembered, neither reported nor completed, and only remembered ones were reported. -/
structure Remembered (w : World) : Prop where
  awaited : ∀ name departure, w.state.departed.get name = some departure → departure.awaiting = true →
    name ∈ stoppedRunners w.log ∧ name ∉ reportedRunners w.log ∧ name ∉ completedRunners w.log
  reported : ∀ name ∈ reportedRunners w.log, name ∈ stoppedRunners w.log

namespace WorkerState

variable {s s' : WorkerState} {name : String} {departure : Departure}

def Fewer (s s' : WorkerState) : Prop :=
  ∀ name departure, s'.departed.get name = some departure → departure.awaiting = true →
    ∃ old, s.departed.get name = some old ∧ old.awaiting = true

theorem fewer_of_departed (h : s'.departed = s.departed) : Fewer s s' := by
  intro name departure hget hawaits
  exact ⟨departure, h ▸ hget, hawaits⟩

theorem fewer_remember (hnot : departure.awaiting = false) : Fewer s (s.remember departure) := by
  intro name other hget hawaits
  unfold remember at hget
  split at hget
  · exact ⟨other, hget, hawaits⟩
  · rw [Table.get_put] at hget
    split at hget
    · rw [Option.some.injEq] at hget
      rw [← hget, hnot] at hawaits
      cases hawaits
    · exact ⟨other, hget, hawaits⟩

theorem markStopped_of_stopped {record : WorkerRecord} (h : (s.departed.get record.name).any (·.stopped) = true) (at_ : Int) (awaiting : Bool) :
    s.markStopped record at_ awaiting = s := if_pos h

theorem get_markStopped_of_ne {record : WorkerRecord} (h : name ≠ record.name) (at_ : Int) (awaiting : Bool) :
    (s.markStopped record at_ awaiting).departed.get name = s.departed.get name := by
  unfold markStopped remember
  split
  · rfl
  · exact Table.get_put_of_ne h

theorem fewer_markDepartedBusy (name : String) : Fewer s (s.markDepartedBusy name).2 := by
  intro other departure hget hawaits
  unfold markDepartedBusy at hget
  split at hget
  · rename_i old hold
    rw [Table.get_put] at hget
    split at hget
    · rename_i hname
      rw [Option.some.injEq] at hget
      rw [← hget] at hawaits
      exact ⟨old, by rw [hname]; exact (Table.key_of_get hold ▸ hold : s.departed.get old.name = some old), hawaits⟩
    · exact ⟨departure, hget, hawaits⟩
  · exact ⟨departure, hget, hawaits⟩

theorem fewer_takeDeparted (name : String) : Fewer s (s.takeDeparted name).2 := by
  intro other departure hget hawaits
  rw [takeDeparted, Table.get_erase] at hget
  split at hget
  · cases hget
  · exact ⟨departure, hget, hawaits⟩

theorem fewer_pruneDeparted (before : Int) : Fewer s (s.pruneDeparted before) := by
  intro other departure hget hawaits
  rw [pruneDeparted, Table.get_filter, Option.filter_eq_some_iff] at hget
  exact ⟨departure, hget.1, hawaits⟩

theorem takeOverdue_spec (s : WorkerState) (before : Int) : ((s.takeOverdue before).1.map Departure.name).Nodup ∧
    (∀ name ∈ (s.takeOverdue before).1.map Departure.name, ∃ old, s.departed.get name = some old ∧ old.awaiting = true) ∧
    ∀ name departure, (s.takeOverdue before).2.departed.get name = some departure → departure.awaiting = true →
      name ∉ (s.takeOverdue before).1.map Departure.name ∧ ∃ old, s.departed.get name = some old ∧ old.awaiting = true := by
  have hnames : (s.takeOverdue before).1.map Departure.name = (s.departed.rows.filter (overdue before)).map Departure.name := by
    rw [takeOverdue, List.map_map]
    rfl
  have hnodup : ((s.takeOverdue before).1.map Departure.name).Nodup := hnames ▸ s.departed.nodup.sublist (List.filter_sublist.map _)
  refine ⟨hnodup, ?_, ?_⟩
  · intro name hname
    rw [hnames] at hname
    obtain ⟨old, hold, rfl⟩ := List.mem_map.mp hname
    obtain ⟨hrow, hoverdue⟩ := List.mem_filter.mp hold
    rw [overdue, Bool.and_eq_true] at hoverdue
    exact ⟨old, Table.get_of_mem hrow, hoverdue.1⟩
  · intro name departure hget hawaits
    by_cases hname : name ∈ (s.takeOverdue before).1.map Departure.name
    · -- the departures that are returned are not awaited any more
      obtain ⟨taken, htaken, rfl⟩ := List.mem_map.mp hname
      have hput := Table.get_foldl_put hnodup s.departed htaken
      rw [show (s.takeOverdue before).2.departed = (s.takeOverdue before).1.foldl Table.put s.departed from rfl, hput, Option.some.injEq] at hget
      obtain ⟨old, -, rfl⟩ := List.mem_map.mp htaken
      rw [← hget] at hawaits
      cases hawaits
    · refine ⟨hname, departure, ?_, hawaits⟩
      rw [← hget]
      exact (Table.get_foldl_put_of_not_mem hname s.departed).symm

end WorkerState

def StateOp.remembers : StateOp → Bool
  | markDeparted _ _ | markStopped _ _ _ | markDepartedBusy _ | takeOverdue _ | takeDeparted _ | pruneDeparted _ => true
  | _ => false

theorem StateOp.departed_exec {op : StateOp} {choice : Choice} {s s' : WorkerState} {answer : op.Ans} (h : op.exec choice s = some (answer, s'))
    (hop : op.remembers = false) : s'.departed = s.departed := by
  cases op with
  | markDeparted _ _ | markStopped _ _ _ | markDepartedBusy _ | takeOverdue _ | takeDeparted _ | pruneDeparted _ => cases hop
  | all | idleByStart _ =>
    cases choice <;> simp only [exec, Option.some.injEq, Prod.mk.injEq, reduceCtorEq] at h
    all_goals first
      | (obtain ⟨-, rfl⟩ := h; rfl)
      | (split at h
         · simp only [Option.some.injEq, Prod.mk.injEq] at h
           obtain ⟨-, rfl⟩ := h
           rfl
         · simp at h)
  | markBusy name =>
    simp only [exec, Option.some.injEq, WorkerState.markBusy] at h
    split at h <;> (rw [Prod.mk.injEq] at h; obtain ⟨-, rfl⟩ := h; rfl)
  | markMissing name at_ =>
    simp only [exec, Option.some.injEq, WorkerState.markMissing] at h
    split at h
    · split at h <;> (rw [Prod.mk.injEq] at h; obtain ⟨-, rfl⟩ := h; rfl)
    · rw [Prod.mk.injEq] at h; obtain ⟨-, rfl⟩ := h; rfl
  | markPresent name =>
    simp only [exec, Option.some.injEq, Prod.mk.injEq] at h
    obtain ⟨-, rfl⟩ := h
    unfold WorkerState.markPresent
    split
    · split <;> rfl
    · rfl
  | add _ _ | adopt _ | get _ | count | countScaleSet _ | summary | remove _ =>
    simp only [exec, Option.some.injEq, Prod.mk.injEq] at h
    obtain ⟨-, rfl⟩ := h
    rfl

/-! ### One step -/

section Step

variable {w w' : World} {entry : LogEntry}

theorem Remembered.quiet (h : Remembered w) (htruthful : Truthful w.log) (hlog : w'.log = entry :: w.log) (hbooted : entry.isBooted = false)
    (hreports : entry.reports = []) (hcompletes : entry.completes = none) (hfewer : w.state.Fewer w'.state) :
    Remembered w' ∧ Truthful w'.log := by
  refine ⟨⟨fun name departure hget hawaits => ?_, fun name hname => ?_⟩, ?_⟩
  · obtain ⟨old, hold, hawaited⟩ := hfewer name departure hget hawaits
    obtain ⟨hstopped, hreported, hcompleted⟩ := h.awaited name old hold hawaited
    rw [hlog, reportedRunners_cons hbooted, completedRunners_cons hbooted, stoppedRunners_cons hbooted, hreports, hcompletes]
    exact ⟨List.mem_append_right _ hstopped, hreported, hcompleted⟩
  · rw [hlog, reportedRunners_cons hbooted, hreports] at hname
    rw [hlog, stoppedRunners_cons hbooted]
    exact List.mem_append_right _ (h.reported name hname)
  · rw [hlog, Truthful, hreports]
    exact ⟨⟨List.nodup_nil, List.forall_mem_nil _⟩, htruthful⟩

theorem Remembered.takeDeparted (h : Remembered w) (htruthful : Truthful w.log) {name : String} {answer : Option Departure}
    (hlog : w'.log = .call (.state (.takeDeparted name)) answer :: w.log) (hstate : w'.state = (w.state.takeDeparted name).2) :
    Remembered w' ∧ Truthful w'.log := by
  refine ⟨⟨fun other departure hget hawaits => ?_, fun other hother => ?_⟩, ?_⟩
  · rw [hstate] at hget
    obtain ⟨old, hold, hawaited⟩ := WorkerState.fewer_takeDeparted name other departure hget hawaits
    obtain ⟨hstopped, hreported, hcompleted⟩ := h.awaited other old hold hawaited
    have hne : other ≠ name := by
      rintro rfl
      rw [WorkerState.takeDeparted, Table.get_erase_self] at hget
      cases hget
    rw [hlog, reportedRunners_cons rfl, completedRunners_cons rfl, stoppedRunners_cons rfl]
    exact ⟨hstopped, hreported, by simpa [LogEntry.completes, hne] using hcompleted⟩
  · rw [hlog, reportedRunners_cons rfl] at hother
    rw [hlog, stoppedRunners_cons rfl]
    exact h.reported other hother
  · rw [hlog]
    exact ⟨⟨List.nodup_nil, List.forall_mem_nil _⟩, htruthful⟩

theorem Remembered.takeOverdue (h : Remembered w) (htruthful : Truthful w.log) {before : Int}
    (hlog : w'.log = .call (.state (.takeOverdue before)) (w.state.takeOverdue before).1 :: w.log)
    (hstate : w'.state = (w.state.takeOverdue before).2) : Remembered w' ∧ Truthful w'.log := by
  obtain ⟨hnodup, htaken, hleft⟩ := w.state.takeOverdue_spec before
  refine ⟨⟨fun name departure hget hawaits => ?_, fun name hname => ?_⟩, ?_⟩
  · rw [hstate] at hget
    obtain ⟨hnot, old, hold, hawaited⟩ := hleft name departure hget hawaits
    obtain ⟨hstopped, hreported, hcompleted⟩ := h.awaited name old hold hawaited
    rw [hlog, reportedRunners_cons rfl, completedRunners_cons rfl, stoppedRunners_cons rfl]
    exact ⟨hstopped, fun hmem => (List.mem_append.mp hmem).elim hnot hreported, hcompleted⟩
  · rw [hlog, reportedRunners_cons rfl] at hname
    rw [hlog, stoppedRunners_cons rfl]
    rcases List.mem_append.mp hname with hnow | hearlier
    · obtain ⟨old, hold, hawaited⟩ := htaken name hnow
      exact (h.awaited name old hold hawaited).1
    · exact h.reported name hearlier
  · rw [hlog]
    refine ⟨⟨hnodup, fun name hname => ?_⟩, htruthful⟩
    obtain ⟨old, hold, hawaited⟩ := htaken name hname
    exact (h.awaited name old hold hawaited).2

theorem Remembered.firstStop (h : Remembered w) (htruthful : Truthful w.log) {record : WorkerRecord} {at_ : Int} {answer : Unit}
    (hstopped : record.name ∉ stoppedRunners w.log) (hcompleted : record.name ∉ completedRunners w.log)
    (hlog : w'.log = .call (.state (.markStopped record at_ true)) answer :: w.log) (hstate : w'.state = w.state.markStopped record at_ true) :
    Remembered w' ∧ Truthful w'.log := by
  refine ⟨⟨fun name departure hget hawaits => ?_, fun name hname => ?_⟩, ?_⟩
  · rw [hlog, reportedRunners_cons rfl, completedRunners_cons rfl, stoppedRunners_cons rfl]
    by_cases hname : name = record.name
    · rw [hname]
      exact ⟨List.mem_append_left _ (List.mem_singleton_self _), fun hreported => hstopped (h.reported _ hreported), hcompleted⟩
    · rw [hstate, WorkerState.get_markStopped_of_ne hname] at hget
      obtain ⟨hstopped', hreported, hcompleted'⟩ := h.awaited name departure hget hawaits
      exact ⟨List.mem_append_right _ hstopped', hreported, hcompleted'⟩
  · rw [hlog, reportedRunners_cons rfl] at hname
    rw [hlog, stoppedRunners_cons rfl]
    exact List.mem_append_right _ (h.reported name hname)
  · rw [hlog]
    exact ⟨⟨List.nodup_nil, List.forall_mem_nil _⟩, htruthful⟩

theorem Remembered.exec (h : Remembered w) (htruthful : Truthful w.log) {op : Call} {choice : Choice} {answer : op.Ans} (hone : StopsOnce w op)
    (hexec : World.exec op choice w = some (answer, w')) : Remembered w' ∧ Truthful w'.log := by
  have hlog := World.exec_log hexec
  have hother : op.part ≠ .state → w.state.Fewer w'.state := fun hpart =>
    WorkerState.fewer_of_departed (congrArg WorkerState.departed ((World.exec_sameBut hexec).state hpart))
  cases op with
  | state sop =>
    obtain ⟨w₁, heffect, rfl⟩ := World.exec_eq_some_iff.mp hexec
    simp only [World.effect, Option.map_eq_some_iff, Prod.mk.injEq] at heffect
    obtain ⟨⟨answer', state⟩, hstate, rfl, rfl⟩ := heffect
    cases sop with
    | takeDeparted name =>
      simp only [StateOp.exec, Option.some.injEq] at hstate
      exact h.takeDeparted htruthful hlog (congrArg Prod.snd hstate).symm
    | takeOverdue before =>
      simp only [StateOp.exec, Option.some.injEq] at hstate
      obtain rfl : (w.state.takeOverdue before).1 = answer' := congrArg Prod.fst hstate
      exact h.takeOverdue htruthful hlog (congrArg Prod.snd hstate).symm
    | markStopped record at_ awaiting =>
      simp only [StateOp.exec, Option.some.injEq, Prod.mk.injEq] at hstate
      obtain ⟨-, rfl⟩ := hstate
      cases awaiting with
      | false => exact h.quiet htruthful hlog rfl rfl rfl (WorkerState.fewer_remember rfl)
      | true =>
        rcases hone record.name rfl with hknown | ⟨hstopped, hcompleted⟩
        · exact h.quiet htruthful hlog rfl rfl rfl (WorkerState.fewer_of_departed
            (congrArg WorkerState.departed (WorkerState.markStopped_of_stopped hknown at_ true)))
        · exact h.firstStop htruthful hstopped hcompleted hlog rfl
    | markDeparted record at_ =>
      simp only [StateOp.exec, Option.some.injEq, Prod.mk.injEq] at hstate
      obtain ⟨-, rfl⟩ := hstate
      exact h.quiet htruthful hlog rfl rfl rfl (WorkerState.fewer_remember rfl)
    | markDepartedBusy name =>
      simp only [StateOp.exec, Option.some.injEq] at hstate
      obtain rfl : (w.state.markDepartedBusy name).2 = state := congrArg Prod.snd hstate
      exact h.quiet htruthful hlog rfl rfl rfl (WorkerState.fewer_markDepartedBusy name)
    | pruneDeparted before =>
      simp only [StateOp.exec, Option.some.injEq, Prod.mk.injEq] at hstate
      obtain ⟨-, rfl⟩ := hstate
      exact h.quiet htruthful hlog rfl rfl rfl (WorkerState.fewer_pruneDeparted before)
    | _ => exact h.quiet htruthful hlog rfl rfl rfl (WorkerState.fewer_of_departed (StateOp.departed_exec hstate rfl))
  | _ => exact h.quiet htruthful hlog rfl rfl rfl (hother (by simp [Call.part]))

end Step

def StoppingOnce (c : Config) (label : Label) : Prop := ∀ made ∈ c.made label, StopsOnce c.world made.1

instance (c : Config) (label : Label) : Decidable (StoppingOnce c label) := inferInstanceAs (Decidable (∀ made ∈ c.made label, _))

theorem Remembered.step {s : Scaler} {c c' : Config} {label : Label} (h : Remembered c.world) (htruthful : Truthful c.world.log)
    (hok : StoppingOnce c label) (hstep : s.step label c = some c') : Remembered c'.world ∧ Truthful c'.world.log := by
  rcases Scaler.step_world hstep with ⟨change, -, hworld⟩ | ⟨disk, -, hboot⟩ | ⟨event, -, hworld⟩ | hworld | ⟨op, choice, answer, hmade, hexec⟩
  · rw [hworld]
    cases change <;> exact ⟨⟨h.awaited, h.reported⟩, htruthful⟩
  · -- a new process remembers nobody
    obtain ⟨hstate, hlog⟩ := Scaler.boot_state hboot
    refine ⟨⟨fun name departure hget => ?_, fun name hname => ?_⟩, ?_⟩
    · rw [hstate] at hget
      cases hget
    · rw [hlog] at hname
      cases hname
    · rw [hlog]
      exact ⟨⟨List.nodup_nil, List.forall_mem_nil _⟩, htruthful⟩
  · rw [hworld]
    exact h.quiet htruthful rfl rfl rfl rfl (WorkerState.fewer_of_departed rfl)
  · rw [hworld]
    exact ⟨h, htruthful⟩
  · exact h.exec htruthful (hok _ hmade) hexec

namespace Demo

def exited : Worker := { worker with createdAt := 3 * Duration.hour, state := "stopped", runnerID := 7, runnerScaleSetID := 1 }

def started : WorkerRecord := { worker := { exited with state := "" }, busy := true, observed := true }

/-- The worker is launched and its job starts. -/
def working : List Label :=
  recovery ++ launching ++
    threads [(0, .launch (.ok { worker with createdAt := 3 * Duration.hour }) (some { worker with createdAt := 3 * Duration.hour })), (1, written), (0, .none)] ++
    committed ++ .deliver (.jobStarted (runnerName lease)) :: calls [(3, .none)] ++ [.finish]

def retiring : List (Nat × Choice) :=
  [(0, .order [started]), (4, written), (4, .destroy none true), (0, .runner (.ok (some registration))), (0, .removed none true), (1, written), (1, written),
    (17, .none)]

/-- Six minutes later reconcile looks for completions that are missing. -/
def overdue : List Label :=
  .finish :: .env (.tick (3 * Duration.hour + 6 * Duration.minute)) :: .deliver (.desiredRunnerCount false 0) :: calls [(1, listed []), (1, .order []), (5, .none)]

/-- The worker stops, and no completion comes. -/
def abandoned : List Label := working ++ .deliver (.desiredRunnerCount false 0) :: calls ([(1, listed [exited])] ++ [(1, .order [started])] ++ retiring.tail) ++ overdue

/-- The job completes, but the provider does not delete the worker at the first attempt. -/
def delayed : List Label :=
  let refused : List (Nat × Choice) := [(4, .destroy (some (.transient (.text "timeout"))) false), (0, listed [exited])]
  working ++ .deliver (.jobCompleted (runnerName lease) 0) :: calls ((4, written) :: refused ++ [(6, .none)]) ++
    .finish :: .deliver (.desiredRunnerCount false 0) :: calls ((1, listed [exited]) :: (2, .destroy (some (.transient (.text "timeout"))) false) ::
      (0, listed [exited]) :: (1, listed [exited]) :: retiring) ++ overdue

end Demo

end RunnerYard
