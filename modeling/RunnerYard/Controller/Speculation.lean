import RunnerYard.Controller.Protocol
import RunnerYard.Interaction.Escort
import RunnerYard.Pool.Placement

/-!
# Speculation

`speculate` starts runners in free pool slots for jobs that wait on a machine to boot. How many is settled when it counts the idle workers; the pool of launches that follows then starts no more, because each of its threads launches once and enters one worker into local state.

A `Share` is an argument about such a pool: a bound on what its threads have left to do, which holds when `speculate` asks for the pool and which every call of a thread keeps. The threads are followed by their `Course`.
-/

namespace RunnerYard

open Interaction
open Interaction.Prog (Safe All lift fanOut)

/-! ### What the log says -/

def currentEvent : List LogEntry → Option ListenerEvent
  | [] => none
  | .call _ _ :: log => currentEvent log
  | .delivered event :: _ => some event
  | .booted :: _ => none

def LogEntry.startsSpare : LogEntry → Bool
  | call (.launch .spare _) (.ok _) => true
  | _ => false

def spareStarts (log : List LogEntry) : Nat := log.countP LogEntry.startsSpare

def Call.isLaunch : Call → Bool
  | launch _ _ => true
  | _ => false

theorem spareStarts_call {op : Call} (h : op.isLaunch = false) (answer : op.Ans) (log : List LogEntry) :
    spareStarts (.call op answer :: log) = spareStarts log := by
  refine List.countP_cons_of_neg ?_
  cases op <;> first | simp [Call.isLaunch] at h; done | simp [LogEntry.startsSpare]

def LaunchRequest.tier (req : LaunchRequest) : Tier := if req.spare then .spare else req.route.launch

namespace Speculation

structure Env (w w' : World) : Prop where
  state : w'.state = w.state
  log : w'.log = w.log

theorem env_of_change (w : World) (change : EnvChange) : Env w (w.change change) := by
  cases change <;> exact ⟨rfl, rfl⟩

/-- An argument about the launches of a pool: the answers it admits, what holds of every world, and what bounds `remaining` threads and the courses of running ones. -/
structure Share where
  allowed : Call → Choice → World → Prop
  inv : World → Prop
  bound : LaunchRequest → (remaining : Nat) → List Course → World → Prop

structure Found (s : Scaler) (allowed : Call → Choice → World → Prop) (assigned room : Int) (workerIDs : List String) (needed : Nat)
    (before w : World) : Prop where
  event : currentEvent w.log = some (.desiredRunnerCount false assigned)
  counted : allowed (.state (.idleByStart (s.routeWorker s.mainRoute))) (.fast workerIDs) before
  state : w.state = before.state
  same : currentEvent w.log = currentEvent before.log
  starts : spareStarts w.log = spareStarts before.log
  positive : 1 ≤ needed
  needed : (needed : Int) = s.speculativeCount assigned room (w.state.idleByStart (s.routeWorker s.mainRoute).accepts workerIDs.contains).1
    (w.state.idleByStart (s.routeWorker s.mainRoute).accepts workerIDs.contains).2.1
    (w.state.idleByStart (s.routeWorker s.mainRoute).accepts workerIDs.contains).2.2 w.state.count

namespace Share

variable (sh : Share)

def escort : Escort Call.Ans LaunchRequest String World Choice Course where
  allowed := sh.allowed
  inv := sh.inv
  env := Env
  solo op _ := op.isLaunch = false
  enter req w := sh.bound req req.needed [] w
  role req leaseID := Course.logic req.tier leaseID
  first := {}
  pool req start remaining courses w := currentEvent w.log = currentEvent start.log ∧ sh.inv w ∧ sh.bound req remaining courses w

structure Fair (s : Scaler) : Prop where
  inv_env : ∀ {w w'}, sh.inv w → Env w w' → sh.inv w'
  inv_step : ∀ {op choice w answer w'}, sh.inv w → op.isLaunch = false → sh.allowed op choice w → World.exec op choice w = some (answer, w') →
    sh.inv w'
  inv_boot : ∀ {disk w w'}, sh.inv w → s.boot disk w = some w' → sh.inv w'
  inv_deliver : ∀ {w event}, sh.inv w → sh.inv (w.record (.delivered event))
  env : ∀ {req remaining courses w w'}, sh.bound req remaining courses w → Env w w' → sh.bound req remaining courses w'
  spawn : ∀ {req remaining courses w}, sh.bound req (remaining + 1) courses w → sh.bound req remaining (courses ++ [({} : Course)]) w
  halt : ∀ {req remaining courses w}, sh.bound req (remaining + 1) courses w → sh.bound req 0 courses w
  finish : ∀ {req remaining courses w} (i : Nat), sh.bound req remaining courses w → sh.bound req remaining (courses.eraseIdx i) w
  step : ∀ {req remaining courses w w' i course leaseID op choice answer}, sh.inv w → sh.bound req remaining courses w →
    courses[i]? = some course → Course.permits req.tier leaseID op course → sh.allowed op choice w → World.exec op choice w = some (answer, w') →
    sh.inv w' ∧ sh.bound req remaining (courses.set i (Course.after op answer course)) w'
  regular : ∀ {req w}, sh.inv w → req.spare = false → req.route.launch ≠ .spare → sh.bound req req.needed [] w
  speculative : ∀ {req w before assigned room workerIDs}, sh.inv w → req.spare = true → Found s sh.allowed assigned room workerIDs req.needed before w →
    sh.bound req req.needed [] w

variable {sh} {s : Scaler}

theorem Fair.lawful (h : sh.Fair s) : sh.escort.Lawful s.fan World.exec where
  env_refl _ := ⟨rfl, rfl⟩
  env_trans h h' := ⟨h'.state.trans h.state, h'.log.trans h.log⟩
  inv_step hallowed hexec hsolo hinv := h.inv_step hinv hsolo hallowed hexec
  inv_pool hpool := hpool.2.1
  role_refl _ _ _ := rfl
  pool_start henter hinv := ⟨rfl, hinv, henter⟩
  pool_spawn hpool := ⟨hpool.1, hpool.2.1, h.spawn hpool.2.2⟩
  pool_halt hpool := ⟨hpool.1, hpool.2.1, h.halt hpool.2.2⟩
  pool_finish i hpool := ⟨hpool.1, hpool.2.1, h.finish i hpool.2.2⟩
  pool_env hpool henv hinv := ⟨by rw [henv.log]; exact hpool.1, hinv, h.env hpool.2.2 henv⟩
  pool_step := by
    rintro req start remaining courses w w' i course leaseID op choice answer ⟨hevent, hinv, hbound⟩ hi hguard hallowed hexec
    obtain ⟨hinv', hbound'⟩ := h.step hinv hbound hi hguard hallowed hexec
    refine ⟨_, ⟨World.plausible_answer hexec, rfl⟩, ?_, hinv', hbound'⟩
    rw [World.exec_log hexec]
    exact hevent
  thread req leaseID := (Course.startWorker_course s req.route req.spare leaseID).mono fun _ _ _ => trivial

/-! ### The main program -/

abbrev Main (sh : Share) : Logic (MainAns Call.Ans LaunchRequest LaunchSummary) World := sh.escort.mainLogic World.exec

structure Kept (sh : Share) (event : Option ListenerEvent) (w : World) : Prop where
  event : currentEvent w.log = event
  inv : sh.inv w

variable {event : Option ListenerEvent} {w : World}

theorem ask_safe {op : Call} {post : op.Ans → World → Prop} (hop : op.isLaunch = false) (hkept : sh.Kept event w)
    (hpost : ∀ choice answer w₁ w₂, sh.allowed op choice w → World.exec op choice w = some (answer, w₁) → Env w₁ w₂ → sh.Kept event w₂ →
      post answer w₂) : Safe sh.Main (lift (ask op)) post w := by
  refine ⟨hop, ?_⟩
  rintro answer w₁ ⟨choice, hallowed, hexec, -⟩ w₂ ⟨henv, hinv⟩
  refine hpost choice answer w₁ w₂ hallowed hexec henv ⟨?_, hinv⟩
  rw [henv.log, World.exec_log hexec]
  exact hkept.event

theorem script_safe {α : Type} {p : Script α} (h : All (fun op => op.isLaunch = false) p) (hkept : sh.Kept event w) :
    Safe sh.Main (lift p) (fun _ w' => sh.Kept event w') w := by
  refine Escort.safe_lift h (sh.Kept event) hkept (fun op _ hop _ => hop) ?_ fun _ _ h => h
  rintro op w₁ answer w₂ w₃ - hkept₁ ⟨choice, -, hexec, -⟩ henv hinv
  refine ⟨?_, hinv⟩
  rw [henv.log, World.exec_log hexec]
  exact hkept₁.event

end Share

end Speculation

theorem Gateless.launchless {α : Type} {p : Script α} (h : Gateless p) : All (fun op => op.isLaunch = false) p :=
  h.mono fun op hop => by cases op <;> first | rfl | simp [Call.gateless, Call.plain] at hop

theorem Inward.launchless {α : Type} {p : Script α} (h : Inward p) : All (fun op => op.isLaunch = false) p :=
  h.mono fun op hop => by cases op <;> first | rfl | cases hop

theorem idleByStart_exec {filter : WorkerFilter} {choice : Choice} {w w' : World} {answer : Nat × Nat × Nat}
    (h : World.exec (.state (.idleByStart filter)) choice w = some (answer, w')) :
    ∃ workerIDs, choice = .fast workerIDs ∧ answer = w.state.idleByStart filter.accepts workerIDs.contains ∧ w'.state = w.state := by
  obtain ⟨w₀, heffect, rfl⟩ := World.exec_eq_some_iff.mp h
  cases choice <;> simp only [World.effect, StateOp.exec, Option.map_none, Option.map_some, Option.some.injEq, Prod.mk.injEq, reduceCtorEq] at heffect
  obtain ⟨rfl, rfl⟩ := heffect
  exact ⟨_, rfl, rfl, rfl⟩

theorem count_exec {choice : Choice} {w w' : World} {answer : Nat} (h : World.exec (.state .count) choice w = some (answer, w')) :
    answer = w.state.count ∧ w'.state = w.state := by
  obtain ⟨rfl, rfl⟩ := World.exec_of_effect rfl h
  exact ⟨rfl, rfl⟩

namespace Speculation.Share

variable {sh : Share} {s : Scaler} {w : World} {event : Option ListenerEvent}

theorem inward_safe {α : Type} {p : Script α} {w : World} (h : Inward p) (hkept : sh.Kept event w) : Safe sh.Main (lift p) (fun _ w' => sh.Kept event w') w :=
  script_safe h.launchless hkept

theorem fanOut_safe {request : LaunchRequest} (hkept : sh.Kept event w) (hbound : sh.bound request request.needed [] w) :
    Safe sh.Main (fanOut request) (fun _ w' => sh.Kept event w') w := by
  refine ⟨hbound, fun sum w₁ hsettled w₂ hrely => ⟨?_, hrely.2⟩⟩
  rw [hrely.1.log, hsettled.2.1]
  exact hkept.event

theorem speculate_safe (h : sh.Fair s) {route : ScaleSetRoute} (hroute : route.id = s.scaleSetID) (assigned : Int)
    (hkept : sh.Kept (some (.desiredRunnerCount false assigned)) w) :
    Safe sh.Main (s.speculate route assigned) (fun _ w' => sh.Kept (some (.desiredRunnerCount false assigned)) w') w := by
  have hfilter : s.routeWorker route = s.routeWorker s.mainRoute := by
    unfold Scaler.routeWorker
    rw [hroute]
    rfl
  unfold Scaler.speculate
  split
  · exact hkept
  refine (inward_safe (inward_ask rfl) hkept).bind fun isOpen w₁ hkept₁ => ?_
  split
  · exact hkept₁
  refine (inward_safe (inward_ask rfl) hkept₁).bind fun room w₂ hkept₂ => ?_
  split
  · exact hkept₂
  rw [hfilter]
  refine (Prog.safe_bind _ _ _ _).mpr (ask_safe rfl hkept₂ fun choice₃ answer w₃' w₃ hallowed₃ hexec₃ henv₃ hkept₃ => ?_)
  refine (Prog.safe_bind _ _ _ _).mpr (ask_safe rfl hkept₃ fun choice₄ fleet w₄' w₄ _ hexec₄ henv₄ hkept₄ => ?_)
  obtain ⟨workerIDs, rfl, rfl, hstate₃⟩ := idleByStart_exec hexec₃
  obtain ⟨rfl, hstate₄⟩ := count_exec hexec₄
  have hstate : w₄.state = w₂.state := by rw [henv₄.state, hstate₄, henv₃.state, hstate₃]
  dsimp only
  split
  · exact hkept₄
  · rename_i hcount
    have hfleet : w₃.state.count = w₄.state.count := by rw [henv₄.state, hstate₄]
    rw [hfleet, ← hstate] at hcount ⊢
    refine Scaler.launchWorkers_rule inward_safe route _ true (fanOut_safe hkept₄ ?_)
    have hfound : Found s sh.allowed assigned room workerIDs (s.speculativeCount assigned room _ _ _ w₄.state.count).toNat w₂ w₄ :=
      { event := hkept₄.event
        counted := hallowed₃
        state := hstate
        same := hkept₄.event.trans hkept₂.event.symm
        starts := by rw [henv₄.log, World.exec_log hexec₄, henv₃.log, World.exec_log hexec₃, spareStarts_call rfl, spareStarts_call rfl]
        positive := Int.toNat_le_toNat (not_lt.mp hcount)
        needed := Int.toNat_of_nonneg (le_trans (by decide) (not_lt.mp hcount)) }
    exact h.speculative hkept₄.inv rfl hfound

theorem handleDesiredRunnerCount_safe (h : sh.Fair s) {route : ScaleSetRoute} (hroute : route.launch ≠ .spare) (assigned : Int)
    (hmain : route.id = s.scaleSetID → event = some (.desiredRunnerCount false assigned)) (hkept : sh.Kept event w) :
    Safe sh.Main (s.handleDesiredRunnerCount route assigned) (fun _ w' => sh.Kept event w') w := by
  refine (inward_safe (inward_ask rfl) hkept).bind fun _ w₁ hkept₁ => ?_
  refine (script_safe s.walk_gateless.reconcile.launchless hkept₁).bind fun failure w₂ hkept₂ => ?_
  cases failure with
  | some failure => exact hkept₂
  | none =>
    refine (Scaler.scaleUp_rule inward_safe route (fun hkept => fanOut_safe hkept (h.regular hkept.inv rfl hroute)) _ hkept₂).bind fun failure w₃ hkept₃ => ?_
    cases failure with
    | some failure => exact hkept₃
    | none =>
      dsimp only
      split
      · rename_i hid
        rw [hmain hid] at hkept₃ ⊢
        exact speculate_safe h hid assigned hkept₃
      · exact hkept₃

end Speculation.Share

/-- The events that a listener can deliver: the ephemeral scale set, if there is one, has another ID and launches on its own tier. -/
def Scaler.Delivers (s : Scaler) : ListenerEvent → Prop
  | .desiredRunnerCount true _ => ∃ other ∈ s.ephemeral, other.id ≠ s.scaleSetID ∧ other.launch = .ephemeral
  | _ => True

namespace Speculation.Share

variable {sh : Share} {s : Scaler} {w : World}

theorem handle_safe (h : sh.Fair s) {event : ListenerEvent} (hevent : s.Delivers event) (hkept : sh.Kept (some event) w) :
    Safe sh.Main (s.handle event) (fun _ _ => True) w := by
  cases event with
  | desiredRunnerCount ephemeral assigned =>
    cases ephemeral with
    | false =>
      have hroute : s.mainRoute.launch ≠ .spare := by simp [Scaler.mainRoute]
      exact (handleDesiredRunnerCount_safe h hroute assigned (fun _ => rfl) hkept).bind fun _ _ _ => trivial
    | true =>
      obtain ⟨other, hother, hid, hlaunch⟩ := hevent
      rw [Option.mem_def] at hother
      have hroute : s.ephemeral.getD s.mainRoute = other := by rw [hother]; rfl
      have hsafe : Safe sh.Main (s.handleDesiredRunnerCount other assigned) (fun _ _ => True) w :=
        (handleDesiredRunnerCount_safe h (by simp [hlaunch]) assigned (fun heq => absurd heq hid) hkept).mono fun _ _ _ => trivial
      exact Safe.bind (by rw [if_pos rfl, hroute]; exact hsafe) fun _ _ _ => trivial
  | jobStarted name =>
    exact (script_safe (s.walk_gateless.all (s.outer_handleJobStarted name)).launchless hkept).bind fun _ _ _ => trivial
  | jobCompleted name finishTime =>
    exact (script_safe (s.walk_gateless.handleJobCompleted name finishTime).launchless hkept).bind fun _ _ _ => trivial

/-! ### Whole runs -/

def Admits (sh : Share) (s : Scaler) (c : Config) (label : Label) : Prop :=
  (∀ event, label = .deliver event → s.Delivers event) ∧ ∀ made ∈ c.made label, sh.allowed made.1 made.2 c.world

def ConfigSafe (sh : Share) (c : Config) : Prop :=
  sh.inv c.world ∧ match c.process with
    | .busy _ doing => sh.escort.ActivitySafe World.exec (fun _ _ => True) doing c.world
    | _ => True

theorem ConfigSafe.step (h : sh.Fair s) {c c' : Config} {label : Label} (hsafe : sh.ConfigSafe c) (hok : sh.Admits s c label)
    (hstep : s.step label c = some c') : sh.ConfigSafe c' := by
  obtain ⟨hinv, hprocess⟩ := hsafe
  obtain ⟨hdelivers, hallowed⟩ := hok
  unfold Scaler.step at hstep
  split at hstep
  · simp only [Option.some.injEq] at hstep
    subst hstep
    rename_i _ change
    have henv := env_of_change c.world change
    refine ⟨h.inv_env hinv henv, ?_⟩
    obtain ⟨world, process⟩ := c
    cases process with
    | busy recovering doing => exact Escort.ActivitySafe.env h.lawful hprocess henv (h.inv_env hinv henv)
    | _ => trivial
  · simp only [Option.some.injEq] at hstep
    subst hstep
    exact ⟨hinv, trivial⟩
  · obtain ⟨w', hboot, rfl⟩ := Option.map_eq_some_iff.mp hstep
    refine ⟨h.inv_boot hinv hboot, fun w'' henv hinv'' => ?_⟩
    exact (script_safe s.walk_gateless.recover.launchless ⟨rfl, hinv''⟩).mono fun _ _ _ => trivial
  · simp only [Option.some.injEq] at hstep
    subst hstep
    refine ⟨h.inv_deliver hinv, fun w'' henv hinv'' => handle_safe h (hdelivers _ rfl) ⟨?_, hinv''⟩⟩
    rw [henv.log]
    rfl
  · rename_i m world recovering doing
    obtain ⟨⟨doing', w'⟩, hmove, rfl⟩ := Option.map_eq_some_iff.mp hstep
    exact Escort.move_preserves h.lawful hprocess hinv (fun op choice hmade => hallowed (op, choice) hmade) hmove
  · simp only [Option.some.injEq] at hstep
    subst hstep
    exact ⟨hinv, trivial⟩
  · simp only [Option.some.injEq] at hstep
    subst hstep
    exact ⟨hinv, trivial⟩
  · simp at hstep

theorem ConfigSafe.reaches (h : sh.Fair s) {c₀ c : Config} (h₀ : sh.ConfigSafe c₀) (hreach : Reaches s (sh.Admits s) c₀ c) : sh.ConfigSafe c := by
  induction hreach with
  | start => exact h₀
  | step _ hok hstep ih => exact ih.step h hok hstep

end Speculation.Share

end RunnerYard
