import RunnerYard.Controller.Scaler

/-!
# The controller over its whole life

A process that is started on what its predecessor left on disk, recovers, and then handles one listener event at a time until it crashes or a handler returns an error. The listeners of both scale sets take turns, so events are handled one after another; the launches inside a handler interleave. Between any two calls time passes and workers come to their end on their own.
-/

namespace RunnerYard

open Interaction

abbrev Doing := Activity Call.Ans LaunchRequest String (Bool × Option Err) LaunchSummary (Option Err)

inductive Process where
  | down
  | idle
  | busy (recovering : Bool) (doing : Doing)

structure Config where
  world : World
  process : Process

inductive Label where
  | env (change : EnvChange)
  | crash
  | boot (disk : Disk)
  | deliver (event : ListenerEvent)
  | move (m : Move String Choice)
  | finish

namespace Call

/-- The runner a call is about: the calls that change what belongs to one lease. -/
def about : Call → Option String
  | reserve leaseID _ _ => some (runnerName leaseID)
  | settleAt leaseID _ _ => some (runnerName leaseID)
  | forfeit leaseID _ => some (runnerName leaseID)
  | release leaseID => some (runnerName leaseID)
  | adopt leaseID _ => some (runnerName leaseID)
  | put entry => some entry.runnerName
  | remove name => some name
  | state (.add worker _) => some worker.runnerName
  | state (.adopt worker) => some worker.runnerName
  | state (.markBusy name) => some name
  | state (.markMissing name _) => some name
  | state (.markPresent name) => some name
  | state (.remove name) => some name
  | launch _ lease => some lease.runnerName
  | _ => none

end Call

namespace LogEntry

def about : LogEntry → Option String
  | call op _ => op.about
  | delivered (.jobStarted name) => some name
  | delivered (.jobCompleted name _) => some name
  | delivered _ => none
  | booted => none

end LogEntry

namespace World

/-- `uuid.NewString` returns an ID that nothing in the world has mentioned. -/
def fresh (leaseID : String) (w : World) : Bool :=
  leaseID ≠ "" && managedRunnerName (runnerName leaseID) && w.fleet.all (·.leaseID ≠ leaseID) &&
    (w.journal.entries.get (runnerName leaseID)).isNone && (w.state.workers.get (runnerName leaseID)).isNone &&
    w.budget.entries.all (·.leaseID ≠ leaseID) && w.registrations.all (·.name ≠ runnerName leaseID) &&
    w.log.all (·.about ≠ some (runnerName leaseID))

end World

namespace Scaler

variable (s : Scaler)

def newStatusReporter (budget : BudgetStatus) : StatusReporter :=
  { status :=
      { github := { scaleSets := s.ephemeral.elim [] fun other => [{ name := s.scaleSetName }, { name := other.name }] }
        workers := { maximum := s.maxWorkers }
        capacity := { configured := s.maxWorkers, effective := s.maxWorkers }
        budget } }

/-- Start a process: load the ledger and the journal, and begin to recover. -/
def boot (disk : Disk) (w : World) : Option World :=
  let (ledgerErr, w) := w.ledger
    (UsageBudget.load w.budget.limit w.budget.window w.budget.reservation w.budgetFile w.clock disk.failure) disk
  match ledgerErr, RetirementQueue.load w.journal.file with
  | none, .ok journal =>
    some ({ w with
      journal, state := .empty, gate := {}, reporter := s.newStatusReporter (w.budget.snapshot w.clock) }.record .booted)
  | _, _ => none

def move (m : Move String Choice) (doing : Doing) (w : World) : Option (Doing × World) :=
  s.fan.move World.exec World.fresh m doing w

def step : Label → Config → Option Config
  | .env change, c => some { c with world := c.world.change change }
  | .crash, c => some { c with process := .down }
  | .boot disk, { world, process := .down } =>
    (s.boot disk world).map fun world => { world, process := .busy true (.main s.recover.lift) }
  | .deliver event, { world, process := .idle } =>
    some { world := world.record (.delivered event), process := .busy false (.main (s.handle event)) }
  | .move m, { world, process := .busy recovering doing } =>
    (s.move m doing world).map fun r => { world := r.2, process := .busy recovering r.1 }
  | .finish, { world, process := .busy _ (.main (.pure none)) } => some { world, process := .idle }
  | .finish, { world, process := .busy _ (.main (.pure (some _))) } => some { world, process := .down }
  | _, _ => none

def run : List Label → Config → Option Config
  | [], c => some c
  | label :: labels, c => (s.step label c).bind (run labels)

/-- The state of a new deployment, whose controller has not been started yet. -/
def initial (limit window clock : Int) (fleet : List Worker) : Config where
  world :=
    { clock
      state := .empty
      budget := { limit, window, reservation := s.maxLifetime, entries := [] }
      budgetFile := []
      archive := []
      journal := { entries := Table.empty, file := [] }
      gate := {}
      reporter := s.newStatusReporter (UsageBudget.snapshot { limit, window, reservation := s.maxLifetime, entries := [] } clock)
      fleet
      registrations := []
      log := [] }
  process := .down

end Scaler

def Config.isIdle (c : Config) : Bool :=
  match c.process with
  | .idle => true
  | _ => false

variable {c : Config} {ok : Config → Label → Prop} {s : Scaler}

theorem Config.process_of_isIdle (h : c.isIdle = true) : c.process = .idle := by
  unfold isIdle at h
  split at h
  · assumption
  · simp at h

def Config.made (c : Config) : Label → Option (Call × Choice)
  | .move m =>
    match c.process with
    | .busy _ doing => doing.made m
    | _ => none
  | _ => none

/-- The states a run reaches from `c₀` when each of its steps is one that `ok` admits. -/
inductive Reaches (s : Scaler) (ok : Config → Label → Prop) (c₀ : Config) : Config → Prop
  | start : Reaches s ok c₀ c₀
  | step {c c' : Config} {label : Label} : Reaches s ok c₀ c → ok c label → s.step label c = some c' → Reaches s ok c₀ c'

inductive Trace (s : Scaler) (ok : Config → Label → Prop) (c₀ : Config) : List Config → Config → Prop
  | start : Trace s ok c₀ [] c₀
  | step {past : List Config} {c c' : Config} {label : Label} : Trace s ok c₀ past c → ok c label → s.step label c = some c' →
      Trace s ok c₀ (c :: past) c'

theorem Trace.reaches {c₀ : Config} {past : List Config} (h : Trace s ok c₀ past c) :
    Reaches s ok c₀ c := by
  induction h with
  | start => exact .start
  | step _ hok hstep ih => exact ih.step hok hstep

def Scaler.Complies (s : Scaler) (ok : Config → Label → Prop) : List Label → Config → Prop
  | [], _ => True
  | label :: labels, c => ok c label ∧ ∀ next ∈ s.step label c, s.Complies ok labels next

instance Scaler.decidableComplies (s : Scaler) (ok : Config → Label → Prop) [∀ c label, Decidable (ok c label)] :
    (labels : List Label) → (c : Config) → Decidable (s.Complies ok labels c)
  | [], _ => instDecidableTrue
  | label :: labels, c =>
    have : Decidable (∀ next ∈ s.step label c, s.Complies ok labels next) :=
      match s.step label c with
      | none => isTrue (by simp)
      | some next =>
        have := s.decidableComplies ok labels next
        decidable_of_iff (s.Complies ok labels next) (by simp)
    inferInstanceAs (Decidable (_ ∧ _))

theorem Reaches.of_run {c₀ c' : Config} (h : Reaches s ok c₀ c)
    {labels : List Label} (hok : s.Complies ok labels c) (hrun : s.run labels c = some c') : Reaches s ok c₀ c' := by
  induction labels generalizing c with
  | nil =>
    simp only [Scaler.run, Option.some.injEq] at hrun
    exact hrun ▸ h
  | cons label rest ih =>
    obtain ⟨next, hnext, hrest⟩ := Option.bind_eq_some_iff.mp hrun
    exact ih (h.step hok.1 hnext) (hok.2 next hnext) hrest

def Scaler.trail (s : Scaler) : List Label → Config → Option (List Config × Config)
  | [], c => some ([], c)
  | label :: labels, c => (s.step label c).bind fun next => (s.trail labels next).map fun r => (r.1 ++ [c], r.2)

theorem Trace.of_trail {c₀ c' : Config} {past states : List Config} (h : Trace s ok c₀ past c)
    {labels : List Label} (hok : s.Complies ok labels c) (htrail : s.trail labels c = some (states, c')) :
    Trace s ok c₀ (states ++ past) c' := by
  induction labels generalizing c past states with
  | nil =>
    simp only [Scaler.trail, Option.some.injEq, Prod.mk.injEq] at htrail
    obtain ⟨rfl, rfl⟩ := htrail
    exact h
  | cons label rest ih =>
    obtain ⟨next, hnext, hrest⟩ := Option.bind_eq_some_iff.mp htrail
    obtain ⟨⟨later, last⟩, hlater, heq⟩ := Option.map_eq_some_iff.mp hrest
    simp only [Prod.mk.injEq] at heq
    obtain ⟨rfl, rfl⟩ := heq
    have htrace := ih (h.step hok.1 hnext) (hok.2 next hnext) hlater
    rw [List.append_assoc]
    exact htrace

theorem Scaler.Complies.split {labels later : List Label} {c' : Config} {states : List Config}
    (h : s.Complies ok (labels ++ later) c) (htrail : s.trail labels c = some (states, c')) :
    s.Complies ok labels c ∧ s.Complies ok later c' := by
  induction labels generalizing c states with
  | nil =>
    simp only [Scaler.trail, Option.some.injEq, Prod.mk.injEq] at htrail
    obtain ⟨-, rfl⟩ := htrail
    exact ⟨trivial, h⟩
  | cons label rest ih =>
    obtain ⟨next, hnext, hrest⟩ := Option.bind_eq_some_iff.mp htrail
    obtain ⟨⟨passed, last⟩, hlast, heq⟩ := Option.map_eq_some_iff.mp hrest
    simp only [Prod.mk.injEq] at heq
    obtain ⟨-, rfl⟩ := heq
    refine ⟨⟨h.1, fun other hother => ?_⟩, (ih (h.2 next hnext) hlast).2⟩
    rw [Option.mem_def, hnext, Option.some.injEq] at hother
    exact hother ▸ (ih (h.2 next hnext) hlast).1

theorem Reaches.mono {ok' : Config → Label → Prop} {c₀ : Config} (h : Reaches s ok c₀ c)
    (hok : ∀ c label, ok c label → ok' c label) : Reaches s ok' c₀ c := by
  induction h with
  | start => exact .start
  | step _ hlabel hstep ih => exact ih.step (hok _ _ hlabel) hstep

/-- The steps whose call, if they make one, `P` admits, and whose writes at the start of a process succeed. -/
def Admitted (P : Call → Choice → World → Prop) (c : Config) : Label → Prop
  | .boot disk => disk = .ok
  | label => ∀ made ∈ c.made label, P made.1 made.2 c.world

instance (P : Call → Choice → World → Prop) [∀ op choice w, Decidable (P op choice w)] (c : Config) :
    (label : Label) → Decidable (Admitted P c label)
  | .boot disk => inferInstanceAs (Decidable (disk = .ok))
  | .env _ | .crash | .deliver _ | .move _ | .finish => inferInstanceAs (Decidable (∀ made ∈ c.made _, P made.1 made.2 c.world))

theorem Admitted.mono {P Q : Call → Choice → World → Prop} {label : Label} (h : Admitted P c label)
    (hPQ : ∀ op choice w, P op choice w → Q op choice w) : Admitted Q c label := by
  cases label with
  | boot disk => exact h
  | env _ | crash | deliver _ | move _ | finish => exact fun made hmade => hPQ _ _ _ (h made hmade)

/-- A step changes the world by one call, by starting the process, or without the scaler. -/
theorem Scaler.step_world {label : Label} {c' : Config} (h : s.step label c = some c') :
    (∃ change, label = .env change ∧ c'.world = c.world.change change) ∨ (∃ disk, label = .boot disk ∧ s.boot disk c.world = some c'.world) ∨
      (∃ event, label = .deliver event ∧ c'.world = c.world.record (.delivered event)) ∨ c'.world = c.world ∨
      ∃ op choice answer, c.made label = some (op, choice) ∧ World.exec op choice c.world = some (answer, c'.world) := by
  unfold Scaler.step at h
  split at h
  · simp only [Option.some.injEq] at h
    exact Or.inl ⟨_, rfl, h ▸ rfl⟩
  · simp only [Option.some.injEq] at h
    exact Or.inr (Or.inr (Or.inr (Or.inl (h ▸ rfl))))
  · obtain ⟨w', hboot, rfl⟩ := Option.map_eq_some_iff.mp h
    exact Or.inr (Or.inl ⟨_, rfl, hboot⟩)
  · simp only [Option.some.injEq] at h
    exact Or.inr (Or.inr (Or.inl ⟨_, rfl, h ▸ rfl⟩))
  · obtain ⟨⟨doing, w'⟩, hmove, rfl⟩ := Option.map_eq_some_iff.mp h
    exact Or.inr (Or.inr (Or.inr (Fan.move_world hmove)))
  · simp only [Option.some.injEq] at h
    exact Or.inr (Or.inr (Or.inr (Or.inl (h ▸ rfl))))
  · simp only [Option.some.injEq] at h
    exact Or.inr (Or.inr (Or.inr (Or.inl (h ▸ rfl))))
  · simp at h

/-! ### A small deployment

One scale set for one worker, and the steps its runs are put together from. -/

namespace Demo

def scaler : Scaler where
  scaleSetName := "set"
  scaleSetID := 1
  minWorkers := 0
  maxWorkers := 1
  launchConcurrency := 1
  maxLifetime := Duration.hour
  idleTimeout := 0
  danglingTimeout := 0
  ephemeral := none
  speculator := false

def start : Config := scaler.initial (10 * Duration.hour) (24 * Duration.hour) (3 * Duration.hour) []

def calls (script : List (Nat × Choice)) : List Label :=
  script.flatMap fun (skipped, choice) => List.replicate skipped (.move (.call .none)) ++ [.move (.call choice)]

def threads (script : List (Nat × Choice)) : List Label :=
  script.flatMap fun (skipped, choice) => List.replicate skipped (.move (.advance 0 .none)) ++ [.move (.advance 0 choice)]

def written : Choice := .disk .ok

def listed (workers : List Worker) : Choice := .inventory (.ok workers)

def lease : String := "0a1b2c3d"

def worker : Worker := { id := lease, leaseID := lease, runnerName := runnerName lease, createdAt := 2 * Duration.hour }

def registration : RunnerReference := { id := 7, name := runnerName lease }

/-- Start and recover with nothing at the provider. -/
def recovery : List Label := .boot .ok :: calls [(0, listed []), (1, listed []), (2, written), (5, .none)] ++ [.finish]

/-- A job is assigned: reconcile, and start one launch thread that gets as far as the provider. -/
def launching : List Label :=
  .deliver (.desiredRunnerCount false 1) :: calls [(1, listed []), (1, .order []), (14, .none)] ++ [.move .enter, .move (.spawn lease)] ++
    threads [(1, written), (3, .runner (.ok none)), (1, written),
      (4, .jit (.ok (some { runner := some registration })) (some registration)), (0, written), (1, .none)]

/-- The provider launches the worker, and the launch is committed but for the removal of its entry. -/
def committing : List Label := threads [(0, .launch (.ok worker) (some worker)), (1, written), (0, .none)]

def committed : List Label := threads [(0, written), (9, .none)] ++ [.move (.finish 0), .move .leave, .finish]


end Demo

/-! ### Proof outlines for the controller -/

abbrev ControllerOutline := Outline Call.Ans LaunchRequest String World Choice (Bool × Option Err) LaunchSummary

namespace ControllerOutline

variable (s : Scaler) (O : ControllerOutline)

/-- What a handler or a recovery must leave behind: unless it failed, everything is closed. -/
def Returned (post : Bool → Option Err → World → Prop) (recovering : Bool) (result : Option Err) (w : World) : Prop :=
  (result = none → ∀ key, O.closed key w) ∧ post recovering result w

def ConfigSafe (post : Bool → Option Err → World → Prop) (c : Config) : Prop :=
  O.inv c.world ∧ O.aim c.world ∧
    match c.process with
    | .down => True
    | .idle => ∀ key, O.closed key c.world
    | .busy recovering doing => O.ActivitySafe s.fan World.exec (O.Returned post recovering) doing c.world

/-- The obligations that an outline leaves about the controller. -/
structure Sound (ok : Config → Label → Prop) (post : Bool → Option Err → World → Prop) : Prop where
  lawful : O.Lawful s.fan World.exec World.fresh
  allowed : ∀ {c label op choice}, ok c label → c.made label = some (op, choice) → O.allowed op choice c.world
  env : ∀ {c change}, ok c (.env change) → O.inv c.world → O.env c.world (c.world.change change) ∧ O.inv (c.world.change change)
  boot : ∀ {c disk w'}, ok c (.boot disk) → O.inv c.world → O.aim c.world → s.boot disk c.world = some w' →
    O.inv w' ∧ O.aim w' ∧ ∀ w'', O.env w' w'' → O.inv w'' → Prog.Safe (O.alone World.exec) s.recover (O.Returned post true) w''
  deliver : ∀ {c event}, ok c (.deliver event) → O.inv c.world → O.aim c.world → (∀ key, O.closed key c.world) →
    O.inv (c.world.record (.delivered event)) ∧ O.aim (c.world.record (.delivered event)) ∧
      ∀ w', O.env (c.world.record (.delivered event)) w' → O.inv w' →
        Prog.Safe (O.mainLogic s.fan World.exec) (s.handle event) (O.Returned post false) w'

variable {s O} {ok : Config → Label → Prop} {post : Bool → Option Err → World → Prop}

theorem ConfigSafe.step (hO : O.Sound s ok post) {c c' : Config} {label : Label} (h : O.ConfigSafe s post c)
    (hok : ok c label) (hstep : s.step label c = some c') : O.ConfigSafe s post c' := by
  obtain ⟨hinv, haim, hprocess⟩ := h
  unfold Scaler.step at hstep
  split at hstep
  · simp only [Option.some.injEq] at hstep
    subst hstep
    obtain ⟨henv, hinv'⟩ := hO.env hok hinv
    refine ⟨hinv', hO.lawful.aim_env haim henv hinv', ?_⟩
    rename_i change _
    obtain ⟨world, process⟩ := c
    cases process with
    | down => trivial
    | idle => exact fun key => hO.lawful.closed_drift (hprocess key) (hO.lawful.drift_of_env henv) hinv'
    | busy recovering doing => exact Outline.ActivitySafe.env hO.lawful hprocess henv hinv'
  · simp only [Option.some.injEq] at hstep
    subst hstep
    exact ⟨hinv, haim, trivial⟩
  · obtain ⟨w', hboot, rfl⟩ := Option.map_eq_some_iff.mp hstep
    obtain ⟨hinv', haim', hsafe⟩ := hO.boot hok hinv haim hboot
    exact ⟨hinv', haim', fun w'' henv hinv'' => (O.safe_lift s.fan World.exec).mpr (hsafe w'' henv hinv'')⟩
  · simp only [Option.some.injEq] at hstep
    subst hstep
    exact hO.deliver hok hinv haim hprocess
  · rename_i m world recovering doing
    obtain ⟨⟨doing', w'⟩, hmove, rfl⟩ := Option.map_eq_some_iff.mp hstep
    exact Outline.move_preserves hO.lawful hprocess hinv haim (fun op choice hmade => hO.allowed hok hmade) hmove
  · simp only [Option.some.injEq] at hstep
    subst hstep
    exact ⟨hinv, haim, (hprocess _ (hO.lawful.env_refl _) hinv).1 rfl⟩
  · simp only [Option.some.injEq] at hstep
    subst hstep
    exact ⟨hinv, haim, trivial⟩
  · simp at hstep

theorem ConfigSafe.reaches (hO : O.Sound s ok post) {c₀ c : Config} (h₀ : O.ConfigSafe s post c₀)
    (h : Reaches s ok c₀ c) : O.ConfigSafe s post c := by
  induction h with
  | start => exact h₀
  | step _ hok hstep ih => exact ih.step hO hok hstep

theorem ConfigSafe.maker (hO : O.Sound s ok post) {c : Config} {label : Label} {op : Call} {choice : Choice}
    (h : O.ConfigSafe s post c) (hmade : c.made label = some (op, choice)) : O.guard op c.world ∧ (O.solo op c.world ∨
      ∃ recovering req start spawned remaining threads sum next leaseID,
        c.process = .busy recovering (.pool req spawned remaining threads sum next) ∧ spawned.length ≤ req.needed ∧
        O.poolInv req start spawned (threads.map Prod.fst) sum c.world ∧ leaseID ∈ spawned ∧ O.mine leaseID op c.world) := by
  obtain ⟨hinv, -, hprocess⟩ := h
  obtain ⟨world, process⟩ := c
  unfold Config.made at hmade
  split at hmade
  · cases process with
    | down => simp at hmade
    | idle => simp at hmade
    | busy recovering doing =>
      obtain ⟨hguard, hmaker⟩ := Outline.maker_of_made hO.lawful hprocess hinv hmade
      refine ⟨hguard, hmaker.imp_right ?_⟩
      rintro ⟨req, start, spawned, remaining, threads, sum, next, leaseID, rfl, hcount, hpool, hmem, hmine⟩
      exact ⟨recovering, req, start, spawned, remaining, threads, sum, next, leaseID, rfl, hcount, hpool, hmem, hmine⟩
  · simp at hmade

theorem ConfigSafe.guard (hO : O.Sound s ok post) {c : Config} {label : Label} {op : Call} {choice : Choice}
    (h : O.ConfigSafe s post c) (hmade : c.made label = some (op, choice)) : O.guard op c.world := (h.maker hO hmade).1

end ControllerOutline

end RunnerYard
