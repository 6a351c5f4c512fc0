import RunnerYard.Controller.Protocol
import RunnerYard.Controller.History

/-!
# The discipline of the launch gate

The gate is closed only at the end of `launchWorkers`, and opened only after a probe that entered a worker into local state. What a handler may launch behind a closed gate is settled when it reads its allowance; the pool of launches then keeps to it, because each thread launches once and there are no more threads than the allowance.

The log of the running handler counts what it has done: its launches, the workers it entered, and how often it closed the gate.
-/

namespace RunnerYard

open Interaction
open Interaction.Prog (Safe All lift fanOut)

/-! ### What the log says of the running handler -/

namespace LogEntry

def begins : LogEntry → Bool
  | delivered _ => true
  | booted => true
  | call _ _ => false

def launchName : LogEntry → Option String
  | call (.launch _ lease) _ => some lease.runnerName
  | _ => none

def enters : LogEntry → Bool
  | call (.state (.add _ _)) _ => true
  | _ => false

def closes : LogEntry → Bool
  | call (.closeGate _ _ _ _ _) _ => true
  | _ => false

end LogEntry

def thisHandler (log : List LogEntry) : List LogEntry := log.takeWhile fun entry => !entry.begins

def launchNames (log : List LogEntry) : List String := log.filterMap LogEntry.launchName

def attempts (log : List LogEntry) : Nat := (launchNames (thisHandler log)).length

def entered (log : List LogEntry) : Nat := (thisHandler log).countP LogEntry.enters

def closings (log : List LogEntry) : Nat := (thisHandler log).countP LogEntry.closes

def Confirmed (leaseID : String) (log : List LogEntry) : Prop :=
  ∃ startedAt, LogEntry.call (.adopt leaseID startedAt) (none : Option Err) ∈ log

theorem thisHandler_append {new log : List LogEntry} (h : ∀ entry ∈ new, entry.begins = false) :
    thisHandler (new ++ log) = new ++ thisHandler log := by
  rw [thisHandler, List.takeWhile_append_of_pos]
  · rfl
  · intro entry hentry
    simp [h entry hentry]

@[simp] theorem thisHandler_call (op : Call) (answer : op.Ans) (log : List LogEntry) :
    thisHandler (.call op answer :: log) = .call op answer :: thisHandler log := rfl

/-! ### The gate and the status -/

def CapacityStatus.clear (capacity : CapacityStatus) : Prop :=
  capacity.rejection = "" ∧ capacity.retryAt = 0 ∧ capacity.effective = capacity.configured

def LaunchStatus.clear (launch : LaunchStatus) : Prop := launch.rejection = "" ∧ launch.retryAt = 0

/-- The status shows the rejection the gate was closed for, and no other. -/
def Shows (gate : LaunchGate) (capacity : CapacityStatus) (launch : LaunchStatus) : Prop :=
  match gate.kind with
  | none => capacity.clear ∧ launch.clear
  | some .capacity => capacity.rejection = gate.reason ∧ capacity.retryAt = gate.retryAt ∧
      capacity.effective = min (max 0 gate.effective) capacity.configured ∧ launch.clear
  | some .launch => launch.rejection = gate.reason ∧ launch.retryAt = gate.retryAt ∧ capacity.clear

def Published (w : World) : Prop := Shows w.gate w.reporter.status.capacity w.reporter.status.launch

/-- A gate is closed for a reason of some kind, and an open one holds nothing. -/
structure LaunchGate.Formed (gate : LaunchGate) : Prop where
  kind : gate.kind = none ↔ gate.reason = ""
  paced : gate.Paced

theorem StatusReporter.update_of_not_aboutGate {u : StatusUpdate} (h : u.aboutGate = false) (reporter : StatusReporter) (now : Int) :
    (reporter.update now u).status.capacity = reporter.status.capacity ∧
      (reporter.update now u).status.launch = reporter.status.launch := by
  cases u <;> simp only [StatusUpdate.aboutGate, reduceCtorEq] at h
  case desired scaleSet assigned desired =>
    simp only [update, FleetStatus.derive, FleetStatus.change, FleetStatus.recordDesired]
    split <;> exact ⟨rfl, rfl⟩
  all_goals exact ⟨rfl, rfl⟩

namespace Discipline

/-! ### The outline -/

structure Env (w w' : World) : Prop where
  clock : w.clock ≤ w'.clock
  log : w'.log = w.log
  gate : w'.gate = w.gate
  reporter : w'.reporter = w.reporter
  state : w'.state = w.state

structure Kept (w w' : World) : Prop where
  clock : w.clock ≤ w'.clock
  gate : w'.gate = w.gate
  capacity : w'.reporter.status.capacity = w.reporter.status.capacity
  launch : w'.reporter.status.launch = w.reporter.status.launch

structure Drift (leaseID : String) (w w' : World) : Prop extends Kept w w' where
  launched : runnerName leaseID ∈ launchNames w'.log ↔ runnerName leaseID ∈ launchNames w.log
  confirmed : Confirmed leaseID w'.log ↔ Confirmed leaseID w.log

/-- A handler closes the gate once, and for a reason. -/
def Guard : Call → World → Prop
  | .closeGate _ reason _ _ _, w => reason ≠ "" ∧ closings w.log = 0
  | _, _ => True

def Mine (leaseID : String) : Call → World → Prop
  | .launch _ lease, w => lease.runnerName = runnerName leaseID ∧ runnerName leaseID ∉ launchNames w.log
  | .adopt adopted _, _ => adopted = leaseID
  | .state (.add _ _), w => Confirmed leaseID w.log
  | op, _ => op.plain = true

def Solo : Call → World → Prop
  | .launch _ _, _ => False
  | .state (.add _ _), _ => False
  | _, _ => True

structure Permit (req : LaunchRequest) (w : World) : Prop where
  spare : req.spare = false
  attempts : attempts w.log = 0
  entered : entered w.log = 0
  room : (w.state.count : Int) + req.needed ≤ w.gate.effective ∨ (w.gate.retryAt ≤ w.clock ∧ req.needed ≤ 1)

def refused (sum : LaunchSummary) : Prop := sum.capacityErr.isSome = true ∨ sum.rejectedErr.isSome = true

structure Pool (req : LaunchRequest) (start : World) (spawned running : List String) (sum : LaunchSummary) (w : World) : Prop where
  kept : Kept start w
  permit : start.gate.reason ≠ "" → Permit req start
  log : ∃ new, w.log = new ++ start.log ∧ (∀ entry ∈ new, entry.begins = false ∧ entry.closes = false) ∧
    (launchNames new).Nodup ∧ (∀ name ∈ launchNames new, ∃ leaseID ∈ spawned, name = runnerName leaseID) ∧
    w.state.count ≤ start.state.count + new.countP LogEntry.enters ∧
    (0 < new.countP LogEntry.enters → ∃ leaseID ∈ spawned, Confirmed leaseID w.log)
  refusal : refused sum → ∃ leaseID ∈ spawned, leaseID ∉ running ∧ ¬Confirmed leaseID w.log

def outline : ControllerOutline where
  allowed _ _ _ := True
  inv w := w.gate.Formed
  aim _ := True
  guard := Guard
  mine := Mine
  solo := Solo
  env := Env
  drift := Drift
  closed _ := Published
  enter req w := w.gate.reason ≠ "" → Permit req w
  poolInv := Pool
  result _ leaseID result w := Phase.refusing result = true → ¬Confirmed leaseID w.log

/-! ### What calls leave alone -/

section Frame

variable {leaseID : String} {w w' w'' : World} {op : Call} {choice : Choice} {answer : op.Ans}

theorem Kept.refl (w : World) : Kept w w := ⟨le_refl _, rfl, rfl, rfl⟩

theorem Kept.trans (h : Kept w w') (h' : Kept w' w'') : Kept w w'' :=
  ⟨h.clock.trans h'.clock, h'.gate.trans h.gate, h'.capacity.trans h.capacity, h'.launch.trans h.launch⟩

theorem Kept.published (h : Kept w w') (hw : Published w) : Published w' := by
  unfold Published at hw ⊢
  rw [h.gate, h.capacity, h.launch]
  exact hw

theorem Env.kept (h : Env w w') : Kept w w' := ⟨h.clock, h.gate, by rw [h.reporter], by rw [h.reporter]⟩

theorem Env.drift (h : Env w w') : Drift leaseID w w' := { h.kept with launched := by rw [h.log], confirmed := by rw [h.log] }

theorem Drift.trans (h : Drift leaseID w w') (h' : Drift leaseID w' w'') : Drift leaseID w w'' :=
  { h.toKept.trans h'.toKept with launched := h'.launched.trans h.launched, confirmed := h'.confirmed.trans h.confirmed }

def offGate : Call → Bool
  | .closeGate _ _ _ _ _ => false
  | .clearGate => false
  | .report u => !u.aboutGate
  | _ => true

theorem offGate_of_gateless (h : op.gateless = true) : offGate op = true := by
  cases op <;> first | rfl | exact h

theorem offGate_of_mine (h : Mine leaseID op w) : offGate op = true := by
  cases op <;> first | rfl | exact h

theorem kept_of_exec (hexec : World.exec op choice w = some (answer, w')) (hop : offGate op = true) : Kept w w' := by
  have hsame := World.exec_sameBut hexec
  have hgate : w'.gate = w.gate := hsame.gate (by cases op <;> simp [Call.part, offGate] at hop ⊢)
  by_cases hpart : op.part = .reporter
  · cases op <;> simp only [Call.part, reduceCtorEq] at hpart
    obtain ⟨-, rfl⟩ := World.exec_of_effect rfl hexec
    obtain ⟨hcapacity, hlaunch⟩ := StatusReporter.update_of_not_aboutGate (by simpa [offGate] using hop) w.reporter w.clock
    exact ⟨le_refl _, hgate, hcapacity, hlaunch⟩
  · have hreporter := hsame.reporter hpart
    exact ⟨le_of_eq hsame.clock.symm, hgate, by rw [hreporter], by rw [hreporter]⟩

theorem launchNames_call (op : Call) (answer : op.Ans) (log : List LogEntry) :
    launchNames (.call op answer :: log) = (match op with | .launch _ lease => [lease.runnerName] | _ => []) ++ launchNames log := by
  cases op <;> rfl

theorem confirmed_call {log : List LogEntry} :
    Confirmed leaseID (.call op answer :: log) ↔ (∃ startedAt, LogEntry.call op answer = .call (.adopt leaseID startedAt) (none : Option Err)) ∨
      Confirmed leaseID log := by
  simp only [Confirmed, List.mem_cons]
  constructor
  · rintro ⟨startedAt, heq | hmem⟩
    · exact Or.inl ⟨startedAt, heq.symm⟩
    · exact Or.inr ⟨startedAt, hmem⟩
  · rintro (⟨startedAt, heq⟩ | ⟨startedAt, hmem⟩)
    · exact ⟨startedAt, Or.inl heq.symm⟩
    · exact ⟨startedAt, Or.inr hmem⟩

theorem confirmed_call_of_ne {log : List LogEntry} (hop : ∀ startedAt, op ≠ .adopt leaseID startedAt) :
    Confirmed leaseID (.call op answer :: log) ↔ Confirmed leaseID log := by
  rw [confirmed_call]
  constructor
  · rintro (⟨startedAt, heq⟩ | hold)
    · injection heq with hopeq
      exact absurd hopeq (hop startedAt)
    · exact hold
  · exact Or.inr

theorem drift_of_mine {other : String} (hne : other ≠ leaseID) (hmine : Mine leaseID op w)
    (hexec : World.exec op choice w = some (answer, w')) : Drift other w w' := by
  have hlog := World.exec_log hexec
  have hname := runnerName_ne hne
  have hkept := kept_of_exec hexec (offGate_of_mine hmine)
  refine { hkept with launched := ?_, confirmed := ?_ }
  · rw [hlog, launchNames_call]
    cases op with
    | launch tier lease => simp [show lease.runnerName = runnerName leaseID from hmine.1, hname]
    | _ => exact Iff.rfl
  · rw [hlog]
    apply confirmed_call_of_ne
    rintro startedAt rfl
    exact hne hmine

structure Follows (leaseID : String) (phase : Phase) (w : World) : Prop where
  published : Published w
  unlaunched : phase = .before → runnerName leaseID ∉ launchNames w.log
  confirmed : Confirmed leaseID w.log ↔ phase = .confirmed ∨ phase = .entered

theorem Follows.drift {phase : Phase} (h : Follows leaseID phase w) (hdrift : Drift leaseID w w') : Follows leaseID phase w' where
  published := hdrift.published h.published
  unlaunched hphase := fun hmem => h.unlaunched hphase (hdrift.launched.mp hmem)
  confirmed := hdrift.confirmed.trans h.confirmed

theorem mine_of_permits {phase : Phase} (h : Follows leaseID phase w) (hpermits : Phase.permits leaseID op phase) :
    Guard op w ∧ Mine leaseID op w := by
  cases op with
  | launch tier lease => exact ⟨trivial, hpermits.2.2, h.unlaunched hpermits.1⟩
  | adopt adopted startedAt => exact ⟨trivial, hpermits.2⟩
  | state op =>
    cases op with
    | add worker busy => exact ⟨trivial, h.confirmed.mpr (Or.inl hpermits)⟩
    | _ => exact ⟨trivial, hpermits⟩
  | closeGate kind reason effective hint now => simp [Phase.permits, Call.plain] at hpermits
  | _ => exact ⟨trivial, hpermits⟩

theorem follows_step {phase : Phase} (h : Follows leaseID phase w) (hpermits : Phase.permits leaseID op phase)
    (hexec : World.exec op choice w = some (answer, w')) : Follows leaseID (Phase.after op answer phase) w' := by
  have hlog := World.exec_log hexec
  have hpublished := (kept_of_exec hexec (offGate_of_mine (mine_of_permits h hpermits).2)).published h.published
  by_cases hplain : op.plain = true
  · rw [Phase.after_of_plain hplain]
    refine ⟨hpublished, fun hphase => ?_, ?_⟩
    · rw [hlog, launchNames_call]
      have hunlaunched := h.unlaunched hphase
      cases op <;> first | exact hunlaunched | simp [Call.plain] at hplain
    · rw [hlog, confirmed_call_of_ne]
      · exact h.confirmed
      · rintro startedAt rfl
        simp [Call.plain] at hplain
  · cases op with
    | launch tier lease =>
      refine ⟨hpublished, fun hphase => by simp [Phase.after] at hphase, ?_⟩
      rw [hlog, confirmed_call_of_ne (by simp), h.confirmed, hpermits.1]
      simp [Phase.after]
    | adopt adopted startedAt =>
      obtain ⟨rfl, rfl⟩ := hpermits
      cases answer with
      | none =>
        refine ⟨hpublished, fun hphase => by simp [Phase.after] at hphase, ?_⟩
        rw [hlog, confirmed_call]
        exact ⟨fun _ => Or.inl rfl, fun _ => Or.inl ⟨startedAt, rfl⟩⟩
      | some failure =>
        refine ⟨hpublished, fun hphase => by simp [Phase.after] at hphase, ?_⟩
        rw [hlog, confirmed_call, h.confirmed]
        simp [Phase.after]
    | state op =>
      cases op with
      | add worker busy =>
        refine ⟨hpublished, fun hphase => by simp [Phase.after] at hphase, ?_⟩
        rw [hlog, confirmed_call_of_ne (by simp), h.confirmed, show phase = .confirmed from hpermits]
        simp [Phase.after]
      | _ => exact absurd hpermits hplain
    | _ => exact absurd hpermits hplain

theorem startWorker_own (s : Scaler) (route : ScaleSetRoute) (spare : Bool) (h : Follows leaseID .before w) :
    Safe (outline.own World.exec leaseID) (s.startWorker route spare leaseID)
      (fun result w' => Published w' ∧ (Phase.refusing result = true → ¬Confirmed leaseID w'.log)) w := by
  have hsafe := (Phase.startWorker_phases s route spare leaseID).simulate (L := outline.own World.exec leaseID) (Follows leaseID) h
    (fun op phase w' h' hpermits => mine_of_permits h' hpermits) ?_
  · refine hsafe.mono fun result w' hresult => ?_
    obtain ⟨phase, h', hends⟩ := hresult
    refine ⟨h'.published, fun hrefusing hconfirmed => ?_⟩
    rcases h'.confirmed.mp hconfirmed with hphase | hphase
    · exact hends.1 hphase
    · simp [hends.2 hphase] at hrefusing
  · rintro op phase w₀ answer w₁ w₂ h₀ hpermits ⟨choice, -, hexec, -⟩ ⟨hdrift, -⟩
    exact ⟨_, _, ⟨World.plausible_answer hexec, rfl⟩, rfl, (follows_step h₀ hpermits hexec).drift hdrift⟩

theorem follows_of_fresh (hpublished : Published w) (hfresh : World.fresh leaseID w = true) : Follows leaseID .before w := by
  have hlog : ∀ entry ∈ w.log, entry.about ≠ some (runnerName leaseID) := by
    simp only [World.fresh, Bool.and_eq_true, List.all_eq_true, decide_eq_true_eq] at hfresh
    exact hfresh.2
  refine ⟨hpublished, fun _ hmem => ?_, ?_⟩
  · obtain ⟨entry, hentry, hname⟩ := List.mem_filterMap.mp hmem
    unfold LogEntry.launchName at hname
    split at hname
    · exact hlog _ hentry hname
    · simp at hname
  · constructor
    · rintro ⟨startedAt, hmem⟩
      exact absurd rfl (hlog _ hmem)
    · simp

end Frame

theorem count_of_mine {leaseID : String} {w w' : World} {op : Call} {choice : Choice} {answer : op.Ans} (hmine : Mine leaseID op w)
    (hexec : World.exec op choice w = some (answer, w')) :
    w'.state.count ≤ w.state.count + (LogEntry.call op answer).enters.toNat := by
  by_cases hpart : op.part = .state
  · cases op <;> simp only [Call.part, reduceCtorEq] at hpart
    rename_i op
    obtain ⟨w₁, heffect, rfl⟩ := World.exec_eq_some_iff.mp hexec
    obtain ⟨⟨answer', state⟩, hstate, heq⟩ := Option.map_eq_some_iff.mp heffect
    obtain ⟨-, rfl⟩ := Prod.mk.inj heq
    have hcount := StateOp.count_le hstate
    cases op with
    | add worker busy => exact hcount
    | adopt worker => simp [Mine, Call.plain] at hmine
    | _ => exact hcount
  · rw [(World.exec_sameBut hexec).state hpart]
    exact Nat.le_add_right _ _

/-! ### The pool -/

section PoolLaws

variable {req : LaunchRequest} {start w w' : World} {spawned running : List String} {sum : LaunchSummary} {leaseID : String}

theorem Pool.step {op : Call} {choice : Choice} {answer : op.Ans} (h : Pool req start spawned running sum w) (hspawned : leaseID ∈ spawned)
    (hrunning : leaseID ∈ running) (hmine : Mine leaseID op w) (hexec : World.exec op choice w = some (answer, w')) :
    Pool req start spawned running sum w' := by
  have hlog := World.exec_log hexec
  obtain ⟨new, hnew, hcalls, hnodup, hnames, hcount, hconfirmed⟩ := h.log
  have hmono : ∀ other, Confirmed other w.log → Confirmed other w'.log := by
    rintro other ⟨startedAt, hmem⟩
    exact ⟨startedAt, hlog ▸ List.mem_cons_of_mem _ hmem⟩
  refine ⟨h.kept.trans (kept_of_exec hexec (offGate_of_mine hmine)), h.permit, ⟨.call op answer :: new, ?_, ?_, ?_, ?_, ?_, ?_⟩, ?_⟩
  · rw [hlog, hnew]
    rfl
  · intro entry hentry
    rcases List.mem_cons.mp hentry with rfl | hold
    · refine ⟨rfl, ?_⟩
      cases op <;> first | rfl | simp [Mine, Call.plain] at hmine
    · exact hcalls entry hold
  · rw [launchNames_call]
    cases op <;> simp only [List.nil_append, List.singleton_append] <;> try exact hnodup
    case launch tier lease =>
      refine List.nodup_cons.mpr ⟨fun hmem => hmine.2 ?_, hnodup⟩
      rw [hmine.1] at hmem
      rw [hnew, launchNames, List.filterMap_append]
      exact List.mem_append_left _ hmem
  · rw [launchNames_call]
    intro name hname
    rcases List.mem_append.mp hname with hname | hname
    · cases op <;> simp only [List.not_mem_nil, List.mem_singleton] at hname
      case launch tier lease => exact ⟨leaseID, hspawned, hname.trans hmine.1⟩
    · exact hnames name hname
  · have hstep := count_of_mine hmine hexec
    rw [List.countP_cons]
    cases hentry : (LogEntry.call op answer).enters <;> rw [hentry] at hstep <;> simp at hstep ⊢ <;> omega
  · intro hentered
    by_cases hentry : (LogEntry.call op answer).enters = true
    · refine ⟨leaseID, hspawned, hmono leaseID ?_⟩
      unfold LogEntry.enters at hentry
      split at hentry
      · rename_i heq
        injection heq with hop
        subst hop
        exact hmine
      · simp at hentry
    · rw [List.countP_cons_of_neg hentry] at hentered
      obtain ⟨other, hother, hconf⟩ := hconfirmed hentered
      exact ⟨other, hother, hmono other hconf⟩
  · intro hrefused
    obtain ⟨other, hother, hnotrunning, hnot⟩ := h.refusal hrefused
    refine ⟨other, hother, hnotrunning, fun hconf => hnot ?_⟩
    have hne : other ≠ leaseID := fun heq => hnotrunning (heq ▸ hrunning)
    exact (drift_of_mine hne hmine hexec).confirmed.mp hconf

theorem Pool.finish {running' : List String} {result : Bool × Option Err} (h : Pool req start spawned running sum w)
    (hspawned : leaseID ∈ spawned) (hleft : ∀ other, other ∈ running' ↔ other ∈ running ∧ other ≠ leaseID)
    (hresult : Phase.refusing result = true → ¬Confirmed leaseID w.log) : Pool req start spawned running' (sum.absorb result) w := by
  refine ⟨h.kept, h.permit, h.log, fun hrefused => ?_⟩
  by_cases hbefore : refused sum
  · obtain ⟨other, hother, hnotrunning, hnot⟩ := h.refusal hbefore
    exact ⟨other, hother, fun hmem => hnotrunning ((hleft other).mp hmem).1, hnot⟩
  · refine ⟨leaseID, hspawned, fun hmem => ((hleft leaseID).mp hmem).2 rfl, hresult ?_⟩
    -- The summary did not refuse before, so this result does.
    simp only [refused, not_or, Bool.not_eq_true, Option.isSome_eq_false_iff, Option.isNone_iff_eq_none] at hbefore
    obtain ⟨started, failure⟩ := result
    cases failure with
    | none =>
      cases started <;> simp [refused, LaunchSummary.absorb, hbefore.1, hbefore.2] at hrefused
    | some failure =>
      simp only [Phase.refusing, Option.any_some, Bool.or_eq_true]
      by_cases hcapacity : failure.isCapacity = true
      · exact Or.inl hcapacity
      · by_cases htransient : failure.isTransient = true
        · simp [refused, LaunchSummary.absorb, hcapacity, htransient, hbefore.1, hbefore.2] at hrefused
        · by_cases hrejected : failure.asLaunchRejected.isSome = true
          · exact Or.inr hrejected
          · simp [refused, LaunchSummary.absorb, hcapacity, htransient, hrejected, hbefore.1, hbefore.2] at hrefused

theorem Pool.env (h : Pool req start spawned running sum w) (henv : Env w w') : Pool req start spawned running sum w' := by
  obtain ⟨new, hnew, hcalls, hnodup, hnames, hcount, hconfirmed⟩ := h.log
  refine ⟨h.kept.trans henv.kept, h.permit, ⟨new, ?_, hcalls, hnodup, hnames, ?_, ?_⟩, ?_⟩
  · rw [henv.log, hnew]
  · rw [henv.state]
    exact hcount
  · rw [henv.log]
    exact hconfirmed
  · rw [henv.log]
    exact h.refusal

theorem Pool.spawn (h : Pool req start spawned running sum w) (hnew : leaseID ∉ spawned) :
    Pool req start (leaseID :: spawned) (running ++ [leaseID]) sum w := by
  obtain ⟨new, hlog, hcalls, hnodup, hnames, hcount, hconfirmed⟩ := h.log
  refine ⟨h.kept, h.permit, ⟨new, hlog, hcalls, hnodup, ?_, hcount, ?_⟩, ?_⟩
  · intro name hname
    obtain ⟨other, hother, heq⟩ := hnames name hname
    exact ⟨other, List.mem_cons_of_mem _ hother, heq⟩
  · intro hentered
    obtain ⟨other, hother, hconf⟩ := hconfirmed hentered
    exact ⟨other, List.mem_cons_of_mem _ hother, hconf⟩
  · intro hrefused
    obtain ⟨other, hother, hnotrunning, hnot⟩ := h.refusal hrefused
    refine ⟨other, List.mem_cons_of_mem _ hother, ?_, hnot⟩
    simp only [List.mem_append, List.mem_singleton, not_or]
    exact ⟨hnotrunning, fun heq => hnew (heq ▸ hother)⟩

theorem Pool.begin (hpermit : w.gate.reason ≠ "" → Permit req w) : Pool req w [] [] {} w :=
  ⟨Kept.refl w, hpermit, ⟨[], rfl, by simp, List.nodup_nil, by simp [launchNames], by simp, by simp⟩, by simp [refused]⟩

end PoolLaws

theorem formed_of_exec {w w' : World} {op : Call} {choice : Choice} {answer : op.Ans} (hexec : World.exec op choice w = some (answer, w'))
    (hguard : Guard op w) (h : w.gate.Formed) : w'.gate.Formed := by
  by_cases hpart : op.part = .gate
  · obtain ⟨w₁, heffect, rfl⟩ := World.exec_eq_some_iff.mp hexec
    cases op <;> simp only [Call.part, reduceCtorEq] at hpart
    case closeGate kind reason effective hint now =>
      simp only [World.effect, Option.some.injEq, Prod.mk.injEq] at heffect
      obtain ⟨-, rfl⟩ := heffect
      refine ⟨?_, (LaunchGate.backoff_close h.paced kind reason effective hint now).1⟩
      simpa [World.record, LaunchGate.close] using hguard.1
    case clearGate =>
      simp only [World.effect, Option.some.injEq, Prod.mk.injEq] at heffect
      obtain ⟨-, rfl⟩ := heffect
      exact ⟨by simp [World.record], Or.inl rfl⟩
  · rw [(World.exec_sameBut hexec).gate hpart]
    exact h

theorem lawful (s : Scaler) : outline.Lawful s.fan World.exec World.fresh where
  inv_step _ hexec hguard hinv := formed_of_exec hexec hguard hinv
  env_refl _ := ⟨le_refl _, rfl, rfl, rfl, rfl⟩
  env_trans h h' :=
    ⟨h.clock.trans h'.clock, h'.log.trans h.log, h'.gate.trans h.gate, h'.reporter.trans h.reporter, h'.state.trans h.state⟩
  drift_of_env := Env.drift
  drift_trans := Drift.trans
  drift_of_foreign := by
    rintro key key' op w answer w' hne hmine - ⟨choice, -, hexec, -⟩
    exact drift_of_mine hne hmine hexec
  closed_drift hclosed hdrift _ := hdrift.published hclosed
  aim_env _ _ _ := trivial
  aim_step _ _ _ _ := trivial
  aim_pool _ _ _ := trivial
  pool_start hpermit _ := Pool.begin hpermit
  pool_spawn h _ hnew _ _ := h.spawn hnew
  pool_env h henv _ := h.env henv
  pool_step := by
    rintro req start spawned running sum key op w answer w' h hspawned hrunning hmine - ⟨choice, -, hexec, -⟩
    exact h.step hspawned hrunning hmine hexec
  pool_finish h hspawned _ hleft _ hresult := h.finish hspawned hleft hresult
  thread := by
    intro req key w w' hfresh _ hclosed hdrift _
    exact startWorker_own s req.route req.spare ((follows_of_fresh hclosed hfresh).drift hdrift)

/-! ### The main program -/

section Main

variable {s : Scaler} {w w' w'' : World}

structure Steady (w w' : World) : Prop extends Kept w w' where
  attempts : attempts w'.log = attempts w.log
  entered : entered w'.log = entered w.log
  closings : closings w'.log = closings w.log

theorem Steady.refl (w : World) : Steady w w := { Kept.refl w with attempts := rfl, entered := rfl, closings := rfl }

theorem Steady.trans (h : Steady w w') (h' : Steady w' w'') : Steady w w'' :=
  { h.toKept.trans h'.toKept with
    attempts := h'.attempts.trans h.attempts, entered := h'.entered.trans h.entered, closings := h'.closings.trans h.closings }

theorem Env.steady (h : Env w w') : Steady w w' :=
  { h.kept with attempts := by rw [h.log], entered := by rw [h.log], closings := by rw [h.log] }

theorem steady_of_exec {op : Call} {choice : Choice} {answer : op.Ans} (hexec : World.exec op choice w = some (answer, w'))
    (hop : op.gateless = true) : Steady w w' := by
  have hlog := World.exec_log hexec
  refine { kept_of_exec hexec (offGate_of_gateless hop) with attempts := ?_, entered := ?_, closings := ?_ }
  · rw [hlog, attempts, thisHandler_call, launchNames_call]
    cases op <;> first | rfl | simp [Call.gateless, Call.plain] at hop
  · rw [hlog, entered, thisHandler_call, List.countP_cons_of_neg]
    · rfl
    · cases op with
      | state op => cases op <;> simp [LogEntry.enters, Call.gateless, Call.plain] at hop ⊢
      | _ => simp [LogEntry.enters]
  · rw [hlog, closings, thisHandler_call, List.countP_cons_of_neg]
    · rfl
    · cases op <;> simp [LogEntry.closes, Call.gateless, Call.plain] at hop ⊢

theorem solo_of_gateless {op : Call} (h : op.gateless = true) (w : World) : Guard op w ∧ Solo op w := by
  cases op with
  | state op => cases op <;> simp [Guard, Solo, Call.gateless, Call.plain] at h ⊢
  | _ => simp [Guard, Solo, Call.gateless, Call.plain] at h ⊢

theorem alone_ask {op : Call} {post : op.Ans → World → Prop} (hguard : Guard op w ∧ Solo op w)
    (h : ∀ choice answer w₁ w', World.exec op choice w = some (answer, w₁) → Env w₁ w' → post answer w') :
    Safe (outline.alone World.exec) (ask op) post w := by
  refine Prog.safe_perform hguard fun answer w₁ hstep w' hrely => ?_
  obtain ⟨choice, -, hexec, -⟩ := hstep
  exact h choice answer w₁ w' hexec hrely.1

theorem alone_steady {α : Type} {p : Script α} (h : Gateless p) (w : World) :
    Safe (outline.alone World.exec) p (fun _ w' => Steady w w') w := by
  refine h.safe (Steady w) (Steady.refl w) (fun op w' hop _ => solo_of_gateless hop w') ?_
  rintro op w₁ answer w₂ w₃ hop hsteady ⟨choice, -, hexec, -⟩ ⟨henv, -⟩
  exact (hsteady.trans (steady_of_exec hexec hop)).trans henv.steady

theorem alone_read {op : Call} (hop : op.gateless = true) (hstate : op.part ≠ .state) :
    Safe (outline.alone World.exec) (ask op) (fun _ w' => Steady w w' ∧ w'.state = w.state) w := by
  refine alone_ask (solo_of_gateless hop w) fun choice answer w₁ w' hexec henv => ?_
  refine ⟨(steady_of_exec hexec hop).trans henv.steady, ?_⟩
  rw [henv.state, (World.exec_sameBut hexec).state hstate]

theorem alone_count : Safe (outline.alone World.exec) (ask (.state .count))
    (fun count w' => Steady w w' ∧ w'.state = w.state ∧ count = w.state.count) w := by
  refine alone_ask ⟨trivial, trivial⟩ fun choice answer w₁ w' hexec henv => ?_
  refine ⟨(steady_of_exec hexec rfl).trans henv.steady, ?_⟩
  obtain ⟨rfl, rfl⟩ := World.exec_of_effect rfl hexec
  exact ⟨henv.state, rfl⟩

theorem alone_report (u : StatusUpdate) : Safe (outline.alone World.exec) (report u)
    (fun _ w' => w'.gate = w.gate ∧ w'.state = w.state ∧ closings w'.log = closings w.log ∧
      w'.reporter.status.capacity = (w.reporter.status.change w.clock u).capacity ∧
      w'.reporter.status.launch = (w.reporter.status.change w.clock u).launch) w := by
  refine alone_ask ⟨trivial, trivial⟩ fun choice answer w₁ w' hexec henv => ?_
  have hlog := World.exec_log hexec
  obtain ⟨-, rfl⟩ := World.exec_of_effect rfl hexec
  refine ⟨henv.gate, henv.state, ?_, by rw [henv.reporter]; rfl, by rw [henv.reporter]; rfl⟩
  rw [henv.log, hlog, closings, thisHandler_call, List.countP_cons_of_neg (by simp [LogEntry.closes])]
  rfl

theorem shows_close {gate : LaunchGate} {status released : FleetStatus} (hshows : Shows gate status.capacity status.launch)
    (kind : GateKind) (reason : String) (effective : Nat) (hint now reportedAt releasedAt : Int)
    (hreleased : if (gate.kind.any (· ≠ kind)) = true then
        released.capacity = (status.change releasedAt (Scaler.recovered (gate.kind.getD kind))).capacity ∧
          released.launch = (status.change releasedAt (Scaler.recovered (gate.kind.getD kind))).launch
      else released.capacity = status.capacity ∧ released.launch = status.launch) :
    Shows (gate.close kind reason effective hint now)
      (released.change reportedAt (Scaler.rejected reason effective (gate.close kind reason effective hint now).retryAt kind)).capacity
      (released.change reportedAt (Scaler.rejected reason effective (gate.close kind reason effective hint now).retryAt kind)).launch := by
  obtain ⟨previous, _, _, _, _⟩ := gate
  cases previous with
  | none =>
    simp only [Option.any_none, Bool.false_eq_true, if_false] at hreleased
    obtain ⟨hcapacity, hlaunch⟩ := hreleased
    cases kind <;>
      simp_all [Shows, LaunchGate.close, Scaler.rejected, FleetStatus.change, CapacityStatus.clear, LaunchStatus.clear]
  | some previous =>
    cases previous <;> cases kind <;>
      simp_all [Shows, LaunchGate.close, Scaler.rejected, Scaler.recovered, FleetStatus.change, CapacityStatus.clear, LaunchStatus.clear]

theorem recordLaunchGate_alone (kind : GateKind) {reason : String} (failure : Err) (hreason : reason ≠ "") (hpublished : Published w)
    (hclosings : closings w.log = 0) : Safe (outline.alone World.exec) (Scaler.recordLaunchGate kind reason failure)
      (fun _ w' => Published w' ∧ w'.gate.reason ≠ "" ∧ w'.state = w.state) w := by
  refine (alone_read rfl (by simp [Call.part])).bind fun now w₁ hresult => ?_
  obtain ⟨hsteady₁, hstate₁⟩ := hresult
  refine alone_count.bind fun effective w₂ hresult => ?_
  obtain ⟨hsteady₂, hstate₂, heffective⟩ := hresult
  have hsteady := hsteady₁.trans hsteady₂
  have hguard : Guard (.closeGate kind reason effective failure.capacityRetryAfter now) w₂ := ⟨hreason, by rw [hsteady.closings, hclosings]⟩
  refine (Prog.safe_bind _ _ _ _).mpr (alone_ask ⟨hguard, trivial⟩ fun choice answer w₃ w₄ hexec henv => ?_)
  obtain ⟨rfl, rfl⟩ := World.exec_of_effect rfl hexec
  have hpublished₂ := hsteady.published hpublished
  have hstate₄ : w₄.state = w.state := by rw [henv.state, ← hstate₁, ← hstate₂]; rfl
  have hrelease : Safe (outline.alone World.exec)
      (reportWhen (w₂.gate.kind.any (· ≠ kind)) (Scaler.recovered (w₂.gate.kind.getD kind)))
      (fun _ w' => w'.gate = w₄.gate ∧ w'.state = w₄.state ∧ (if (w₂.gate.kind.any (· ≠ kind)) = true then
          w'.reporter.status.capacity = (w₄.reporter.status.change w₄.clock (Scaler.recovered (w₂.gate.kind.getD kind))).capacity ∧
            w'.reporter.status.launch = (w₄.reporter.status.change w₄.clock (Scaler.recovered (w₂.gate.kind.getD kind))).launch
        else w'.reporter.status.capacity = w₄.reporter.status.capacity ∧ w'.reporter.status.launch = w₄.reporter.status.launch)) w₄ := by
    unfold reportWhen
    split
    · refine (alone_report _).mono fun _ w' hresult => ?_
      obtain ⟨hgate, hstate, _, hstatus⟩ := hresult
      exact ⟨hgate, hstate, hstatus⟩
    · exact ⟨rfl, rfl, rfl, rfl⟩
  refine hrelease.bind fun _ w₅ hresult => ?_
  obtain ⟨hgate₅, hstate₅, hstatus₅⟩ := hresult
  refine (alone_report _).mono fun _ w₆ hresult => ?_
  obtain ⟨hgate₆, hstate₆, _, hcapacity₆, hlaunch₆⟩ := hresult
  have hgate : w₆.gate = w₂.gate.close kind reason effective failure.capacityRetryAfter now := by
    rw [hgate₆, hgate₅, henv.gate]
    rfl
  refine ⟨?_, ?_, by rw [hstate₆, hstate₅, hstate₄]⟩
  · unfold Published
    rw [hgate, hcapacity₆, hlaunch₆]
    have hshows : Shows w₂.gate w₄.reporter.status.capacity w₄.reporter.status.launch := by
      rw [henv.reporter]
      exact hpublished₂
    exact shows_close hshows kind reason effective _ now w₅.clock w₄.clock hstatus₅
  · rw [hgate]
    exact hreason

theorem recordLaunches_alone {spare : Bool} {sum : LaunchSummary} (hpublished : Published w) (hclosings : closings w.log = 0) :
    Safe (outline.alone World.exec) (Scaler.recordLaunches spare sum)
      (fun _ w' => Published w' ∧ w'.state = w.state ∧ (closings w'.log = 0 ∨ (w'.gate.reason ≠ "" ∧ refused sum))) w := by
  unfold Scaler.recordLaunches
  cases hcapacity : sum.capacityErr with
  | some failure =>
    cases spare with
    | true => exact ⟨hpublished, rfl, Or.inl hclosings⟩
    | false =>
      refine (recordLaunchGate_alone .capacity failure (Err.capacityReason_ne failure) hpublished hclosings).mono ?_
      refine fun _ w' hresult => ?_
      obtain ⟨hpublished', hreason, hstate⟩ := hresult
      exact ⟨hpublished', hstate, Or.inr ⟨hreason, Or.inl (by rw [hcapacity]; rfl)⟩⟩
  | none =>
    cases hrejected : sum.rejectedErr with
    | some failure =>
      refine (recordLaunchGate_alone .launch failure (Err.launchRejectionReason_ne failure) hpublished hclosings).mono ?_
      refine fun _ w' hresult => ?_
      obtain ⟨hpublished', hreason, hstate⟩ := hresult
      exact ⟨hpublished', hstate, Or.inr ⟨hreason, Or.inr (by rw [hrejected]; rfl)⟩⟩
    | none => exact ⟨hpublished, rfl, Or.inl hclosings⟩

theorem shows_clear {gate : LaunchGate} {status : FleetStatus} {kind : GateKind} (hshows : Shows gate status.capacity status.launch)
    (hkind : gate.kind = some kind) (now : Int) :
    Shows {} (status.change now (Scaler.recovered kind)).capacity (status.change now (Scaler.recovered kind)).launch := by
  cases kind <;> simp_all [Shows, Scaler.recovered, FleetStatus.change, CapacityStatus.clear, LaunchStatus.clear]

theorem clearLaunchGate_alone (hformed : w.gate.Formed) (hpublished : Published w) :
    Safe (outline.alone World.exec) Scaler.clearLaunchGate (fun _ w' => Published w' ∧ closings w'.log = closings w.log) w := by
  refine (Prog.safe_bind _ _ _ _).mpr (alone_ask ⟨trivial, trivial⟩ fun choice answer w₁ w₂ hexec henv => ?_)
  have hlog := World.exec_log hexec
  obtain ⟨rfl, rfl⟩ := World.exec_of_effect rfl hexec
  have hclosings : closings w₂.log = closings w.log := by
    rw [henv.log, hlog, closings, thisHandler_call, List.countP_cons_of_neg (by simp [LogEntry.closes])]
    rfl
  have hgate : w₂.gate = {} := henv.gate
  have hshows : Shows w.gate w₂.reporter.status.capacity w₂.reporter.status.launch := by
    rw [henv.reporter]
    exact hpublished
  cases hkind : w.gate.kind with
  | none =>
    have hopen := hformed.kind.mp hkind
    simp only [hopen, ne_eq, not_true_eq_false, decide_false, Bool.false_eq_true, if_false]
    refine ⟨?_, hclosings⟩
    unfold Published
    rw [hgate]
    unfold Shows at hshows
    rw [hkind] at hshows
    exact hshows
  | some kind =>
    have hclosed : w.gate.reason ≠ "" := fun hopen => by
      rw [hformed.kind.mpr hopen] at hkind
      simp at hkind
    simp only [hclosed, ne_eq, not_false_eq_true, decide_true, if_true]
    refine (alone_report _).mono fun _ w₃ hresult => ?_
    obtain ⟨hgate₃, _, hclosings₃, hcapacity₃, hlaunch₃⟩ := hresult
    refine ⟨?_, hclosings₃.trans hclosings⟩
    unfold Published
    rw [hgate₃, hgate, hcapacity₃, hlaunch₃]
    exact shows_clear hshows hkind w₂.clock

abbrev Alone : Logic Call.Ans World := outline.alone World.exec

abbrev Main (s : Scaler) : Logic (MainAns Call.Ans LaunchRequest LaunchSummary) World := outline.mainLogic s.fan World.exec

theorem alone_formed {α : Type} {p : Script α} {post : α → World → Prop} (h : Safe Alone p post w) (hformed : w.gate.Formed) :
    Safe Alone p (fun a w' => post a w' ∧ w'.gate.Formed) w := by
  refine h.frame hformed (fun _ _ _ hguard => hguard) ?_ fun _ _ _ hrely => ⟨hrely, hrely.2⟩
  rintro op w₁ answer w₂ - - ⟨choice, hallowed, hexec, hinv, hinv'⟩
  exact ⟨⟨choice, hallowed, hexec, hinv, hinv'⟩, hinv'⟩

theorem main_lift {α : Type} {p : Script α} {post : α → World → Prop} (h : Safe Alone p post w) (hformed : w.gate.Formed) :
    Safe (Main s) (lift p) (fun a w' => post a w' ∧ w'.gate.Formed) w :=
  (outline.safe_lift s.fan World.exec).mpr (alone_formed h hformed)

/-- The status is in step with the gate. -/
structure InStep (w : World) : Prop where
  formed : w.gate.Formed
  published : Published w

def ClosedOnce (w : World) : Prop := closings w.log = 0 ∨ w.gate.reason ≠ ""

theorem InStep.steady (h : InStep w) (hsteady : Steady w w') : InStep w' :=
  ⟨hsteady.gate ▸ h.formed, hsteady.published h.published⟩

theorem ClosedOnce.steady (h : ClosedOnce w) (hsteady : Steady w w') : ClosedOnce w' := by
  rcases h with h | h
  · exact Or.inl (hsteady.closings.trans h)
  · exact Or.inr (by rw [hsteady.gate]; exact h)

theorem length_le_of_names {names spawned : List String} (hnodup : names.Nodup)
    (hnames : ∀ name ∈ names, ∃ leaseID ∈ spawned, name = runnerName leaseID) : names.length ≤ spawned.length := by
  have hsub : names ⊆ spawned.map runnerName := by
    intro name hname
    obtain ⟨leaseID, hmem, rfl⟩ := hnames name hname
    exact List.mem_map_of_mem hmem
  simpa using (List.subperm_of_subset hnodup hsub).length_le

section AfterPool

variable {req : LaunchRequest} {start : World} {spawned running : List String} {sum : LaunchSummary}

theorem Pool.count_of_refused (h : Pool req start spawned running sum w) (hone : spawned.length ≤ 1) (hrefused : refused sum) :
    w.state.count ≤ start.state.count := by
  obtain ⟨new, -, -, -, -, hcount, hconfirmed⟩ := h.log
  obtain ⟨leaseID, hspawned, -, hnot⟩ := h.refusal hrefused
  by_cases hentered : 0 < new.countP LogEntry.enters
  · obtain ⟨other, hother, hconf⟩ := hconfirmed hentered
    obtain ⟨only, rfl⟩ := List.length_eq_one_iff.mp (Nat.le_antisymm hone (List.length_pos_of_mem hspawned))
    rw [List.mem_singleton] at hspawned hother
    exact absurd hconf (hother ▸ hspawned ▸ hnot)
  · omega

theorem Pool.closings_eq (h : Pool req start spawned running sum w) : closings w.log = closings start.log := by
  obtain ⟨new, hlog, hcalls, -⟩ := h.log
  have hnone : new.countP LogEntry.closes = 0 := List.countP_eq_zero.mpr fun entry hentry => by simp [(hcalls entry hentry).2]
  rw [hlog, closings, thisHandler_append fun entry hentry => (hcalls entry hentry).1, List.countP_append, hnone, Nat.zero_add]
  rfl

theorem Pool.thisHandler_eq (h : Pool req start spawned running sum w) : ∃ new, thisHandler w.log = new ++ thisHandler start.log ∧
    (launchNames new).Nodup ∧ (∀ name ∈ launchNames new, name ∈ launchNames w.log ∧ ∃ leaseID ∈ spawned, name = runnerName leaseID) ∧
    w.state.count ≤ start.state.count + new.countP LogEntry.enters := by
  obtain ⟨new, hlog, hcalls, hnodup, hnames, hcount, -⟩ := h.log
  refine ⟨new, ?_, hnodup, fun name hname => ⟨?_, hnames name hname⟩, hcount⟩
  · rw [hlog, thisHandler_append fun entry hentry => (hcalls entry hentry).1]
  · rw [hlog, launchNames, List.filterMap_append]
    exact List.mem_append_left _ hname

theorem Pool.attempts_lt (h : Pool req start spawned running sum w) (hattempts : attempts start.log = 0) {leaseID : String}
    (hspawned : leaseID ∈ spawned) (hnew : runnerName leaseID ∉ launchNames w.log) : attempts w.log < spawned.length := by
  obtain ⟨new, hthis, hnodup, hnames, -⟩ := h.thisHandler_eq
  have hlength : attempts w.log = (launchNames new).length := by
    simp only [attempts, launchNames, List.length_eq_zero_iff] at hattempts ⊢
    rw [hthis, List.filterMap_append, hattempts, List.append_nil]
  have hall : (runnerName leaseID :: launchNames new).length ≤ spawned.length := by
    apply length_le_of_names
    · exact List.nodup_cons.mpr ⟨fun hmem => hnew (hnames _ hmem).1, hnodup⟩
    · intro name hname
      rcases List.mem_cons.mp hname with rfl | hname
      · exact ⟨leaseID, hspawned, rfl⟩
      · exact (hnames name hname).2
  rw [List.length_cons] at hall
  omega

theorem Pool.count_le (h : Pool req start spawned running sum w) (hentered : entered start.log = 0) :
    w.state.count ≤ start.state.count + entered w.log := by
  obtain ⟨new, hthis, -, -, hcount⟩ := h.thisHandler_eq
  have hnew : entered w.log = new.countP LogEntry.enters := by
    simp only [entered] at hentered ⊢
    rw [hthis, List.countP_append, hentered, Nat.add_zero]
  omega

end AfterPool

theorem launchWorkers_main (route : ScaleSetRoute) (needed : Nat) (spare : Bool) (h : InStep w) (hclosings : closings w.log = 0)
    (hpermit : w.gate.reason ≠ "" → Permit { route, needed, spare } w) :
    Safe (Main s) (Scaler.launchWorkers route needed spare) (fun _ w' => InStep w' ∧
      (closings w'.log = 0 ∨ (w'.gate.reason ≠ "" ∧ (needed ≤ 1 → w'.state.count ≤ w.state.count)))) w := by
  refine ⟨⟨hpermit, fun _ => h.published⟩, fun sum w₁ hsettled w₂ hrely => ?_⟩
  obtain ⟨hformed₁, hpublished₁, spawned, hspawned, hpool⟩ := hsettled
  have hpool₂ := hpool.env hrely.1
  have hpublished₂ := hrely.1.kept.published (hpublished₁ "")
  have hclosings₂ : closings w₂.log = 0 := hpool₂.closings_eq.trans hclosings
  refine (main_lift (recordLaunches_alone hpublished₂ hclosings₂) hrely.2).bind ?_
  rintro _ w₃ ⟨⟨hpublished₃, hstate₃, hend⟩, hformed₃⟩
  refine ⟨⟨hformed₃, hpublished₃⟩, ?_⟩
  rcases hend with hnone | ⟨hclosed, hrefused⟩
  · exact Or.inl hnone
  · refine Or.inr ⟨hclosed, fun hone => ?_⟩
    rw [hstate₃]
    exact hpool₂.count_of_refused (le_trans hspawned hone) hrefused

theorem routeCounts_alone (route : ScaleSetRoute) : Safe Alone (s.routeCounts route)
    (fun counts w' => Steady w w' ∧ w'.state = w.state ∧ counts.2 = w.state.count) w := by
  unfold Scaler.routeCounts
  split
  · exact alone_count.bind fun fleet w₁ hcount => hcount
  · refine (Prog.safe_bind _ _ _ _).mpr (alone_ask ⟨trivial, trivial⟩ fun choice answer w₁ w₂ hexec henv => ?_)
    have hsteady := (steady_of_exec hexec rfl).trans henv.steady
    obtain ⟨rfl, rfl⟩ := World.exec_of_effect rfl hexec
    refine ⟨hsteady, henv.state, ?_⟩
    split <;> rfl

theorem capacityAllowance_alone (current target : Int) : Safe Alone (ask (.capacityAllowance current target))
    (fun answer w' => Steady w w' ∧ w'.state = w.state ∧
      ∃ now, now ≤ w'.clock ∧ w.gate.capacityAllowance now current target = answer) w := by
  refine alone_ask ⟨trivial, trivial⟩ fun choice answer w₁ w' hexec henv => ?_
  have hsteady := (steady_of_exec hexec rfl).trans henv.steady
  obtain ⟨rfl, rfl⟩ := World.exec_of_effect rfl hexec
  exact ⟨hsteady, henv.state, w.clock, hsteady.clock, rfl⟩

theorem afterProbe_alone {probing : Bool} {fleet : Nat} (h : InStep w)
    (hclosed : closings w.log = 0 ∨ (w.gate.reason ≠ "" ∧ (probing = true → w.state.count ≤ fleet))) :
    Safe Alone (Scaler.afterProbe probing fleet) (fun _ w' => Published w' ∧ ClosedOnce w') w := by
  have hkeep : ClosedOnce w := hclosed.imp_right And.left
  unfold Scaler.afterProbe
  split
  · rename_i hprobing
    refine alone_count.bind fun count w₁ hresult => ?_
    obtain ⟨hsteady, hstate, hcount⟩ := hresult
    have h₁ := h.steady hsteady
    split
    · rename_i hlt
      have hnone : closings w.log = 0 := by
        rcases hclosed with hnone | ⟨-, hle⟩
        · exact hnone
        · exact absurd (hle hprobing) (by rw [hcount] at hlt; omega)
      refine (clearLaunchGate_alone h₁.formed h₁.published).mono fun _ w₂ hresult => ?_
      obtain ⟨hpublished, hsame⟩ := hresult
      exact ⟨hpublished, Or.inl (hsame.trans (hsteady.closings.trans hnone))⟩
    · exact ⟨h₁.published, hkeep.steady hsteady⟩
  · exact ⟨h.published, hkeep⟩

theorem scaleUp_main (route : ScaleSetRoute) (target : Int) (h : InStep w) (hattempts : attempts w.log = 0) (hentered : entered w.log = 0)
    (hclosings : closings w.log = 0) : Safe (Main s) (s.scaleUp route target) (fun _ w' => InStep w' ∧ ClosedOnce w') w := by
  refine (main_lift (routeCounts_alone route) h.formed).bind fun (current, fleet) w₁ hresult => ?_
  obtain ⟨⟨hsteady₁, hstate₁, hfleet⟩, _⟩ := hresult
  have h₁ := h.steady hsteady₁
  have hclosings₁ := hsteady₁.closings.trans hclosings
  dsimp only at hfleet ⊢
  split
  · exact ⟨h₁, Or.inl hclosings₁⟩
  · refine (main_lift (capacityAllowance_alone _ _) h₁.formed).bind ?_
    rintro ⟨needed, probing⟩ w₂ ⟨⟨hsteady₂, hstate₂, now, hnow, hallowance⟩, -⟩
    have h₂ := h₁.steady hsteady₂
    have hsteady := hsteady₁.trans hsteady₂
    have hclosings₂ := hsteady.closings.trans hclosings
    have hcount₂ : w₂.state.count = fleet := by rw [hstate₂, hstate₁, hfleet]
    dsimp only
    split
    · exact ⟨h₂, Or.inl hclosings₂⟩
    · rename_i hneeded
      have hclosed : w₁.gate.reason ≠ "" → (probing = false ∧ (fleet : Int) + needed ≤ w₁.gate.effective) ∨
          (probing = true ∧ needed = 1 ∧ w₁.gate.retryAt ≤ now) := fun hclosed =>
        LaunchGate.capacityAllowance_closed hclosed hallowance (by omega)
      -- Only a closed gate is probed, by one launch.
      have hprobe : probing = true → needed.toNat ≤ 1 := by
        intro hprobing
        by_cases hopen : w₁.gate.reason = ""
        · rw [LaunchGate.capacityAllowance_open hopen, Prod.mk.injEq] at hallowance
          rw [hprobing] at hallowance
          simp at hallowance
        · rcases hclosed hopen with ⟨hnot, -⟩ | ⟨-, rfl, -⟩
          · rw [hprobing] at hnot
            simp at hnot
          · exact le_refl _
      have hpermit : w₂.gate.reason ≠ "" → Permit { route, needed := needed.toNat, spare := false } w₂ := by
        intro hclosed₂
        refine ⟨rfl, hsteady.attempts.trans hattempts, hsteady.entered.trans hentered, ?_⟩
        rw [hsteady₂.gate] at hclosed₂ ⊢
        dsimp only
        rcases hclosed hclosed₂ with ⟨-, hroom⟩ | ⟨-, rfl, hretry⟩
        · left
          omega
        · exact Or.inr ⟨hretry.trans hnow, le_refl _⟩
      refine (launchWorkers_main route needed.toNat false h₂ hclosings₂ hpermit).bind fun failure w₃ hresult => ?_
      obtain ⟨h₃, hend⟩ := hresult
      cases failure with
      | some failure => exact ⟨h₃, hend.imp_right And.left⟩
      | none =>
        have hbefore : closings w₃.log = 0 ∨ (w₃.gate.reason ≠ "" ∧ (probing = true → w₃.state.count ≤ fleet)) :=
          hend.imp_right (And.imp_right fun hcount hprobing => hcount₂ ▸ hcount (hprobe hprobing))
        refine (main_lift (afterProbe_alone h₃ hbefore) h₃.formed).bind ?_
        refine fun _ w₄ hresult => ?_
        obtain ⟨⟨hpublished, honce⟩, hformed⟩ := hresult
        exact ⟨⟨hformed, hpublished⟩, honce⟩

theorem gateOpen_alone : Safe Alone (ask .gateOpen)
    (fun answer w' => Steady w w' ∧ (answer = true ↔ w'.gate.reason = "")) w := by
  refine alone_ask ⟨trivial, trivial⟩ fun choice answer w₁ w' hexec henv => ?_
  have hsteady := (steady_of_exec hexec rfl).trans henv.steady
  obtain ⟨rfl, rfl⟩ := World.exec_of_effect rfl hexec
  refine ⟨hsteady, ?_⟩
  rw [hsteady.gate]
  simp

theorem speculate_main (route : ScaleSetRoute) (assignedJobs : Int) (h : InStep w) (honce : ClosedOnce w) :
    Safe (Main s) (s.speculate route assignedJobs) (fun _ w' => InStep w') w := by
  unfold Scaler.speculate
  split
  · exact h
  · refine (main_lift gateOpen_alone h.formed).bind fun isOpen w₁ hresult => ?_
    obtain ⟨⟨hsteady₁, hopen⟩, _⟩ := hresult
    have h₁ := h.steady hsteady₁
    split
    · exact h₁
    · rename_i hisOpen
      have hopen₁ : w₁.gate.reason = "" := hopen.mp (by simpa using hisOpen)
      have hclosings₁ : closings w₁.log = 0 := (honce.steady hsteady₁).resolve_right (fun hclosed => hclosed hopen₁)
      refine (main_lift (alone_steady (gateless_ask rfl) w₁) h₁.formed).bind fun room w₂ hresult => ?_
      obtain ⟨hsteady₂, _⟩ := hresult
      have h₂ := h₁.steady hsteady₂
      split
      · exact h₂
      · refine (main_lift (alone_steady (gateless_ask rfl) w₂) h₂.formed).bind fun (busy, fastIdle, slowIdle) w₃ hresult => ?_
        obtain ⟨hsteady₃, _⟩ := hresult
        have h₃ := h₂.steady hsteady₃
        refine (main_lift (alone_steady (gateless_ask rfl) w₃) h₃.formed).bind fun fleet w₄ hresult => ?_
        obtain ⟨hsteady₄, _⟩ := hresult
        have h₄ := h₃.steady hsteady₄
        have hsteady := (hsteady₂.trans hsteady₃).trans hsteady₄
        dsimp only
        split
        · exact h₄
        · refine (launchWorkers_main route _ true h₄ (hsteady.closings.trans hclosings₁) fun hclosed => ?_).mono fun _ w₅ hend => hend.1
          exact absurd (by rw [hsteady.gate]; exact hopen₁) hclosed

theorem handleDesiredRunnerCount_main (route : ScaleSetRoute) (assignedJobs : Int) (h : InStep w) (hattempts : attempts w.log = 0)
    (hentered : entered w.log = 0) (hclosings : closings w.log = 0) :
    Safe (Main s) (s.handleDesiredRunnerCount route assignedJobs) (fun _ w' => InStep w') w := by
  refine (main_lift (alone_steady (gateless_ask rfl) w) h.formed).bind fun _ w₁ hresult => ?_
  obtain ⟨hsteady₁, _⟩ := hresult
  have h₁ := h.steady hsteady₁
  refine (main_lift (alone_steady s.walk_gateless.reconcile w₁) h₁.formed).bind fun failure w₂ hresult => ?_
  obtain ⟨hsteady₂, _⟩ := hresult
  have hsteady := hsteady₁.trans hsteady₂
  have h₂ := h.steady hsteady
  cases failure with
  | some failure => exact h₂
  | none =>
    refine (scaleUp_main route _ h₂ (hsteady.attempts.trans hattempts) (hsteady.entered.trans hentered)
      (hsteady.closings.trans hclosings)).bind fun failure w₃ hresult => ?_
    obtain ⟨h₃, honce⟩ := hresult
    cases failure with
    | some failure => exact h₃
    | none =>
      dsimp only
      split
      · exact speculate_main route assignedJobs h₃ honce
      · exact h₃

theorem handle_main (event : ListenerEvent) (h : InStep w) (hattempts : attempts w.log = 0) (hentered : entered w.log = 0)
    (hclosings : closings w.log = 0) : Safe (Main s) (s.handle event) (fun _ w' => InStep w') w := by
  cases event with
  | desiredRunnerCount ephemeral assignedJobs =>
    exact (handleDesiredRunnerCount_main _ assignedJobs h hattempts hentered hclosings).bind fun _ _ h' => h'
  | jobStarted name =>
    exact (main_lift (alone_steady (s.walk_gateless.all (s.outer_handleJobStarted name)) w) h.formed).bind
      fun _ _ hresult => h.steady hresult.1
  | jobCompleted name finishTime =>
    exact (main_lift (alone_steady (s.walk_gateless.handleJobCompleted name finishTime) w) h.formed).bind
      fun _ _ hresult => h.steady hresult.1

end Main

/-! ### The controller -/

def Forward (c : Config) : Label → Prop
  | .env (.tick clock) => c.world.clock ≤ clock
  | _ => True

instance (c : Config) (label : Label) : Decidable (Forward c label) := by
  unfold Forward
  split <;> infer_instance

theorem env_of_change {c : Config} {change : EnvChange} (h : Forward c (.env change)) : Env c.world (c.world.change change) := by
  cases change with
  | tick clock => exact ⟨h, rfl, rfl, rfl, rfl⟩
  | _ => exact ⟨le_refl _, rfl, rfl, rfl, rfl⟩

variable {s : Scaler}

theorem inStep_fresh {w : World} {budget : BudgetStatus} (hgate : w.gate = {}) (hreporter : w.reporter = s.newStatusReporter budget) :
    InStep w := by
  refine ⟨by rw [hgate]; exact ⟨by simp, Or.inl rfl⟩, ?_⟩
  unfold Published
  rw [hgate, hreporter]
  simp [Shows, Scaler.newStatusReporter, CapacityStatus.clear, LaunchStatus.clear]

theorem inStep_boot {disk : Disk} {w w' : World} (h : s.boot disk w = some w') : w'.gate = {} ∧ InStep w' := by
  unfold Scaler.boot at h
  dsimp only at h
  split at h
  · simp only [Option.some.injEq] at h
    subst h
    exact ⟨rfl, inStep_fresh rfl rfl⟩
  · simp at h

theorem sound (s : Scaler) : outline.Sound s Forward fun _ _ _ => True where
  lawful := lawful s
  allowed _ _ := trivial
  env hok hinv := by
    have henv := env_of_change hok
    refine ⟨henv, ?_⟩
    change LaunchGate.Formed _
    rw [henv.gate]
    exact hinv
  boot := by
    intro c disk w' _ _ _ hboot
    obtain ⟨-, h⟩ := inStep_boot hboot
    refine ⟨h.formed, trivial, fun w'' henv _ => (alone_steady s.walk_gateless.recover w'').mono fun _ w₃ hsteady => ?_⟩
    exact ⟨fun _ _ => hsteady.published (henv.kept.published h.published), trivial⟩
  deliver := by
    intro c event _ hinv _ hclosed
    refine ⟨hinv, trivial, fun w' henv hinv' => ?_⟩
    have hpublished : Published w' := henv.kept.published (hclosed "")
    have hthis : thisHandler w'.log = [] := by
      rw [henv.log]
      rfl
    refine (handle_main event ⟨hinv', hpublished⟩ ?_ ?_ ?_).mono fun _ w'' h => ⟨fun _ _ => h.published, trivial⟩
    · rw [attempts, hthis]
      rfl
    · rw [entered, hthis]
      rfl
    · rw [closings, hthis]
      rfl

theorem configSafe {limit window clock : Int} {fleet : List Worker} {c : Config}
    (h : Reaches s Forward (s.initial limit window clock fleet) c) : outline.ConfigSafe s (fun _ _ _ => True) c := by
  refine ControllerOutline.ConfigSafe.reaches (sound s) ⟨?_, trivial, trivial⟩ h
  exact (inStep_fresh (s := s) rfl rfl).formed

/-- How a step may change the gate: a closing is the first of its handler, and sets a time to retry within bounds and no shorter backoff; only a probe or a new process resets that. -/
inductive GateStep (c c' : Config) (label : Label) : Prop
  | same (h : c'.world.gate = c.world.gate)
  | reset (h : c'.world.gate = {}) (hby : (∃ disk, label = .boot disk) ∨ ∃ choice, c.made label = some (.clearGate, choice))
  | close (kind : GateKind) (reason : String) (effective hint now : Int) (choice : Choice)
      (hmade : c.made label = some (.closeGate kind reason effective hint now, choice))
      (hgate : c'.world.gate = c.world.gate.close kind reason effective hint now) (hfirst : closings c.world.log = 0)
      (hleast : 5 * Duration.second ≤ c'.world.gate.retryAt - now) (hmost : c'.world.gate.retryAt - now ≤ 15 * Duration.minute)
      (hpaced : c'.world.gate.backoff = 0 ∨ (Duration.minute ≤ c'.world.gate.backoff ∧ c'.world.gate.backoff ≤ 15 * Duration.minute))
      (hlonger : c.world.gate.backoff ≤ c'.world.gate.backoff)

theorem gateStep {c c' : Config} {label : Label} (hsafe : outline.ConfigSafe s (fun _ _ _ => True) c)
    (hok : Forward c label) (hstep : s.step label c = some c') : GateStep c c' label := by
  rcases Scaler.step_world hstep with ⟨change, rfl, hworld⟩ | ⟨disk, rfl, hboot⟩ | ⟨event, -, hworld⟩ | hworld | ⟨op, choice, answer, hmade, hexec⟩
  · exact .same (by rw [hworld, (env_of_change hok).gate])
  · exact .reset (inStep_boot hboot).1 (Or.inl ⟨disk, rfl⟩)
  · exact .same (by rw [hworld]; rfl)
  · exact .same (by rw [hworld])
  · by_cases hpart : op.part = .gate
    · have hguard := ControllerOutline.ConfigSafe.guard (sound s) hsafe hmade
      obtain ⟨w₁, heffect, hworld⟩ := World.exec_eq_some_iff.mp hexec
      cases op <;> simp only [Call.part, reduceCtorEq] at hpart
      case closeGate kind reason effective hint now =>
        simp only [World.effect, Option.some.injEq, Prod.mk.injEq] at heffect
        obtain ⟨-, rfl⟩ := heffect
        have hgate : c'.world.gate = c.world.gate.close kind reason effective hint now := by
          rw [hworld]
          rfl
        obtain ⟨hleast, hmost⟩ := LaunchGate.wait_close hsafe.1.paced kind reason effective hint now
        obtain ⟨hpaced, hlonger⟩ := LaunchGate.backoff_close hsafe.1.paced kind reason effective hint now
        rw [← hgate] at hleast hmost hpaced hlonger
        exact .close kind reason effective hint now choice hmade hgate hguard.2 hleast hmost hpaced hlonger
      case clearGate =>
        simp only [World.effect, Option.some.injEq, Prod.mk.injEq] at heffect
        obtain ⟨-, rfl⟩ := heffect
        exact .reset (by rw [hworld]; rfl) (Or.inr ⟨choice, hmade⟩)
    · exact .same ((World.exec_sameBut hexec).gate hpart)

/-- Behind a closed gate: a launch without spares that keeps the fleet with its handler's launches below the ceiling, or the only launch of its handler after the time to retry. -/
def Held (c : Config) : Prop :=
  ∃ recovering req spawned remaining threads sum next,
    c.process = .busy recovering (.pool req spawned remaining threads sum next) ∧ req.spare = false ∧
    ((c.world.state.count : Int) + attempts c.world.log + 1 ≤ c.world.gate.effective + entered c.world.log ∨
      (c.world.gate.retryAt ≤ c.world.clock ∧ attempts c.world.log = 0))

theorem held_of_made {c : Config} {label : Label} {tier : Tier} {lease : Lease} {choice : Choice}
    (hsafe : outline.ConfigSafe s (fun _ _ _ => True) c) (hmade : c.made label = some (.launch tier lease, choice))
    (hclosed : c.world.gate.reason ≠ "") : Held c := by
  obtain ⟨-, hsolo | hpool⟩ := hsafe.maker (sound s) hmade
  · exact hsolo.elim
  · obtain ⟨recovering, req, start, spawned, remaining, threads, sum, next, leaseID, hprocess, hneeded, hpool, hspawned, hmine⟩ := hpool
    have hpermit := hpool.permit (by rw [← hpool.kept.gate]; exact hclosed)
    have hattempts := hpool.attempts_lt hpermit.attempts hspawned hmine.2
    have hcount := hpool.count_le hpermit.entered
    refine ⟨recovering, req, spawned, remaining, threads, sum, next, hprocess, hpermit.spare, ?_⟩
    rw [hpool.kept.gate]
    rcases hpermit.room with hroom | ⟨hretry, hone⟩
    · left
      omega
    · exact Or.inr ⟨hretry.trans hpool.kept.clock, by omega⟩

/-- In every run whose clock does not run backwards, launches behind a closed gate are held to its ceiling or are one probe, and between handlers the status shows the gate. -/
theorem launch_gate_discipline (s : Scaler) (limit window clock : Int) (fleet : List Worker) (c c' : Config) (label : Label)
    (hreach : Reaches s Forward (s.initial limit window clock fleet) c) (hok : Forward c label) (hstep : s.step label c = some c') :
    (c.process = .idle → Published c.world ∧ (c.world.gate.kind = none ↔ c.world.gate.reason = "")) ∧
      (∀ tier lease choice, c.made label = some (.launch tier lease, choice) → c.world.gate.reason ≠ "" → Held c) ∧
      GateStep c c' label := by
  have hsafe := configSafe hreach
  refine ⟨fun hidle => ?_, fun tier lease choice hmade hclosed => held_of_made hsafe hmade hclosed, gateStep hsafe hok hstep⟩
  obtain ⟨hformed, -, hprocess⟩ := hsafe
  rw [hidle] at hprocess
  exact ⟨hprocess "", hformed.kind⟩

/-- The first launch meets a ceiling, and an hour later a second one gets as far as the provider. -/
def probe : List Label :=
  Demo.recovery ++ Demo.launching ++
    Demo.threads [(0, .launch (.error (.capacity "limit" 0 (.text "full"))) none), (1, .runner (.ok (some Demo.registration))),
      (0, .removed none true), (0, Demo.written), (0, Demo.written), (6, .none)] ++
    [.move (.finish 0), .move .leave] ++ Demo.calls [(3, .none)] ++ [.finish, .env (.tick (4 * Duration.hour))] ++
    .deliver (.desiredRunnerCount false 1) :: Demo.calls [(1, Demo.listed []), (1, .order []), (14, .none)] ++
    [.move .enter, .move (.spawn "2b3c4d5e")] ++
    Demo.threads [(1, Demo.written), (3, .runner (.ok none)), (1, Demo.written),
      (4, .jit (.ok (some { runner := some { id := 8, name := runnerName "2b3c4d5e" } })) (some { id := 8, name := runnerName "2b3c4d5e" })),
      (0, Demo.written), (1, .none)]

def probed : Lease where
  id := "2b3c4d5e"
  runnerName := runnerName "2b3c4d5e"
  runnerID := 8
  runnerScaleSetID := 1
  jitConfig := ""
  deadline := 4 * Duration.hour + (Duration.hour - 30 * Duration.second)
  idleTimeout := 0

theorem launch_gate_discipline_of_a_probe : ∃ (c c' : Config) (label : Label) (choice : Choice),
    c.made label = some (.launch .compute probed, choice) ∧ c.world.gate.reason = "limit" ∧ Held c ∧ GateStep c c' label := by
  have hok : Demo.scaler.Complies Forward probe Demo.start := by decide +kernel
  have hrun : ∃ c ∈ Demo.scaler.run probe Demo.start, c.world.gate.reason = "limit" ∧
      (c.made (.move (.advance 0 (.launch (.error (.text "down")) none)))).map Prod.fst = some (.launch .compute probed) ∧
      (Demo.scaler.step (.move (.advance 0 (.launch (.error (.text "down")) none))) c).isSome = true := by decide +kernel
  obtain ⟨c, hc, hreason, hmap, hstep⟩ := hrun
  obtain ⟨⟨op, choice⟩, hmade, rfl⟩ := Option.map_eq_some_iff.mp hmap
  obtain ⟨c', hc'⟩ := Option.isSome_iff_exists.mp hstep
  have hforward : Forward c (.move (.advance 0 (.launch (.error (.text "down")) none))) := trivial
  obtain ⟨-, hheld, hgate⟩ := launch_gate_discipline Demo.scaler _ _ _ [] c c' _ (Reaches.start.of_run hok hc) hforward hc'
  exact ⟨c, c', _, choice, hmade, hreason, hheld _ _ _ hmade (by rw [hreason]; decide), hgate⟩

end Discipline

end RunnerYard
