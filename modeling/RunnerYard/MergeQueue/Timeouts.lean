import RunnerYard.Interaction.Traces
import RunnerYard.MergeQueue.Tick

/-!
# Check timeouts

A stack is judged by its required checks, at the latest when they time out; a red stack is re-run once, which starts the clock again, and then split or rejected. A check that never reports, or whose failure is from before the retry, fails at the timeout. One that has been started and does not end is waited for all the same: that is the one way in which a stack outlives its timeout.
-/

namespace RunnerYard

namespace MergeQueue

open Interaction

/-! ### The verdict at the timeout -/

/-- There is something to go by: every required check that has started has ended, or one of them has failed or not even started. -/
def Decided (glob : String → String → Bool) (required : List RequiredCheck) (changedFiles : List String) (runs : List CheckRun) : Prop :=
  (∀ check ∈ required, applicable glob check changedFiles = true → ∀ run, newest runs check.name = some run → run.status = "completed") ∨
    ∃ check ∈ required, applicable glob check changedFiles = true ∧
      (newest runs check.name = none ∨ ∃ run, newest runs check.name = some run ∧ run.status = "completed" ∧ passed run.conclusion = false)

section Evaluate

variable {glob : String → String → Bool} {required : List RequiredCheck} {changedFiles : List String} {runs : List CheckRun} {age timeout retriedAt : Int}

theorem mem_failing_of_lost {check : RequiredCheck} (htimeout : timeout ≤ age)
    (h : newest runs check.name = none ∨ ∃ run, newest runs check.name = some run ∧ run.status = "completed" ∧ passed run.conclusion = false)
    (found : Bool × Status) : check.name ∈ (evaluateOne runs age timeout retriedAt found check).2.failing := by
  have hnone : reported runs retriedAt check = none → check.name ∈ (evaluateOne runs age timeout retriedAt found check).2.failing := by
    intro hreported
    unfold evaluateOne
    rw [hreported]
    dsimp only
    rw [if_pos htimeout]
    exact List.mem_append_right _ List.mem_cons_self
  rcases h with hmissing | ⟨run, hnewest, hcompleted, hfailed⟩
  · apply hnone
    rw [reported, hmissing]
    rfl
  · by_cases hretry : retriedAt = 0 ∨ retriedAt ≤ run.startedAt
    · exact mem_failing_of_failed hnewest hcompleted hfailed hretry found
    · apply hnone
      rw [not_or, not_le] at hretry
      rw [reported, hnewest, Option.filter_some, if_neg]
      simp [hcompleted, hfailed, hretry.1, hretry.2]

theorem evaluateOne_of_unfinished {check : RequiredCheck} {run : CheckRun} (hnewest : newest runs check.name = some run)
    (hrunning : run.status ≠ "completed") (found : Bool × Status) : evaluateOne runs age timeout retriedAt found check = (true, found.2) := by
  have hreported : reported runs retriedAt check = some run := by
    rw [reported, hnewest, Option.filter_some, if_pos]
    simp [hrunning]
  unfold evaluateOne
  rw [hreported]
  dsimp only
  rw [if_pos hrunning]

theorem foldl_evaluateOne_waiting {checks : List RequiredCheck}
    (h : ∀ check ∈ checks, ∃ run, newest runs check.name = some run ∧ (run.status ≠ "completed" ∨ run.Passed)) (found : Bool × Status) :
    (checks.foldl (evaluateOne runs age timeout retriedAt) found).2 = found.2 ∧
      ((found.1 = true ∨ ∃ check ∈ checks, ∃ run, newest runs check.name = some run ∧ run.status ≠ "completed") →
        (checks.foldl (evaluateOne runs age timeout retriedAt) found).1 = true) := by
  induction checks generalizing found with
  | nil =>
    refine ⟨rfl, fun hpending => ?_⟩
    rcases hpending with hfound | ⟨check, hcheck, -⟩
    · exact hfound
    · exact absurd hcheck List.not_mem_nil
  | cons check rest ih =>
    have hrest := ih fun other hother => h other (List.mem_cons_of_mem check hother)
    obtain ⟨run, hnewest, hrunning | hpassed⟩ := h check List.mem_cons_self
    · rw [List.foldl_cons, evaluateOne_of_unfinished hnewest hrunning]
      exact ⟨(hrest (true, found.2)).1, fun _ => (hrest (true, found.2)).2 (Or.inl rfl)⟩
    · rw [List.foldl_cons, evaluateOne_of_passed hnewest hpassed]
      refine ⟨(hrest found).1, fun hpending => (hrest found).2 ?_⟩
      rcases hpending with hfound | ⟨other, hother, run', hnewest', hrunning⟩
      · exact Or.inl hfound
      · rcases List.mem_cons.mp hother with rfl | hother
        · rw [hnewest, Option.some.injEq] at hnewest'
          exact absurd (hnewest' ▸ hpassed.1) hrunning
        · exact Or.inr ⟨other, hother, run', hnewest', hrunning⟩

theorem evaluate_pending_of_waiting
    (h : ∀ check ∈ required, applicable glob check changedFiles = true → ∃ run, newest runs check.name = some run ∧ (run.status ≠ "completed" ∨ run.Passed))
    (hrunning : ∃ check ∈ required, applicable glob check changedFiles = true ∧ ∃ run, newest runs check.name = some run ∧ run.status ≠ "completed") :
    (evaluate glob required changedFiles runs age timeout retriedAt).state = .pending := by
  obtain ⟨check, hcheck, happlies, hrun⟩ := hrunning
  have hwaiting := @foldl_evaluateOne_waiting runs age timeout retriedAt (required.filter fun check => applicable glob check changedFiles)
    (fun check hmem => h check (List.mem_filter.mp hmem).1 (List.mem_filter.mp hmem).2) (false, {})
  have hpending := hwaiting.2 (Or.inr ⟨check, List.mem_filter.mpr ⟨hcheck, happlies⟩, hrun⟩)
  unfold evaluate
  dsimp only
  rw [hwaiting.1, hpending]
  rfl

theorem evaluate_not_pending_iff (htimeout : timeout ≤ age) :
    (evaluate glob required changedFiles runs age timeout retriedAt).state ≠ .pending ↔ Decided glob required changedFiles runs := by
  have hlost : (∃ check ∈ required, applicable glob check changedFiles = true ∧ (newest runs check.name = none ∨
      ∃ run, newest runs check.name = some run ∧ run.status = "completed" ∧ passed run.conclusion = false)) →
      (evaluate glob required changedFiles runs age timeout retriedAt).state = .failure := by
    rintro ⟨check, hcheck, happlies, hfails⟩
    exact evaluate_failure_of_mem hcheck happlies (mem_failing_of_lost htimeout hfails)
  -- without a failed or missing one, every check runs or has passed
  have hfine : (¬∃ check ∈ required, applicable glob check changedFiles = true ∧ (newest runs check.name = none ∨
      ∃ run, newest runs check.name = some run ∧ run.status = "completed" ∧ passed run.conclusion = false)) →
      ∀ check ∈ required, applicable glob check changedFiles = true → ∃ run, newest runs check.name = some run ∧ (run.status ≠ "completed" ∨ run.Passed) := by
    intro hnone check hcheck happlies
    cases hnewest : newest runs check.name with
    | none => exact absurd ⟨check, hcheck, happlies, Or.inl hnewest⟩ hnone
    | some run =>
      refine ⟨run, rfl, or_iff_not_imp_left.mpr fun hcompleted => ?_⟩
      rw [ne_eq, not_not] at hcompleted
      refine ⟨hcompleted, ?_⟩
      by_contra hfailed
      exact hnone ⟨check, hcheck, happlies, Or.inr ⟨run, hnewest, hcompleted, Bool.eq_false_iff.mpr hfailed⟩⟩
  constructor
  · intro hstate
    rw [Decided, or_iff_not_imp_right]
    intro hnone check hcheck happlies run hnewest
    by_contra hrunning
    exact hstate (evaluate_pending_of_waiting (hfine hnone) ⟨check, hcheck, happlies, run, hnewest, hrunning⟩)
  · rintro (hended | hfails)
    · by_cases hfails : ∃ check ∈ required, applicable glob check changedFiles = true ∧ (newest runs check.name = none ∨
        ∃ run, newest runs check.name = some run ∧ run.status = "completed" ∧ passed run.conclusion = false)
      · rw [hlost hfails]
        exact fun heq => CheckState.noConfusion heq
      · rw [evaluate_success_of_passed]
        · exact fun heq => CheckState.noConfusion heq
        · intro check hcheck happlies
          obtain ⟨run, hnewest, hrunning | hpassed⟩ := hfine hfails check hcheck happlies
          · exact absurd (hended check hcheck happlies run hnewest) hrunning
          · exact ⟨run, hnewest, hpassed⟩
    · rw [hlost hfails]
      exact fun heq => CheckState.noConfusion heq

end Evaluate

/-! ### What a snapshot says of a stack -/

def changedIn (trace : List (Event Call.Ans)) : List String :=
  trace.flatMap fun
    | ⟨.changedFiles _, .ok files⟩ => files
    | _ => []

def runsIn (trace : List (Event Call.Ans)) : List CheckRun :=
  trace.flatMap fun
    | ⟨.checkRuns _, .ok runs⟩ => runs
    | _ => []

theorem changedIn_append (a b : List (Event Call.Ans)) : changedIn (a ++ b) = changedIn a ++ changedIn b := List.flatMap_append

theorem runsIn_append (a b : List (Event Call.Ans)) : runsIn (a ++ b) = runsIn a ++ runsIn b := List.flatMap_append

theorem yields_call_iff {op : Call} {trace : List (Event Call.Ans)} {v : op.Val} : Try.Yields (call op) trace v ↔ trace = [⟨op, .ok v⟩] :=
  Prog.yields_perform_iff

namespace Queue

variable {q : Queue} {now : Int} {stack : Stack} {trace : List (Event Call.Ans)} {inFlight : InFlight}

theorem yields_batchmateRuns {ids : List Int} (h : Try.Yields (batchmateRuns stack) trace ids) : changedIn trace = [] ∧ runsIn trace = [] := by
  refine h.foldlM (fun _ _ trace => changedIn trace = [] ∧ runsIn trace = []) ?_ ⟨rfl, rfl⟩
  intro member rest ids ids' before round hbefore hround
  obtain ⟨front, back, runs, rfl, hcall, hpure⟩ := Try.yields_bind_iff.mp hround
  rw [yields_call_iff] at hcall
  rw [Try.yields_pure_iff] at hpure
  rw [hcall, hpure.1, List.append_nil, changedIn_append, runsIn_append, hbefore.1, hbefore.2]
  exact ⟨rfl, rfl⟩

theorem yields_loadChecks (h : Try.Yields (q.loadChecks now stack) trace inFlight) : inFlight.stack = stack ∧
    inFlight.checks = evaluate q.glob q.config.requiredChecks (changedIn trace) (runsIn trace) (now - stack.atTime) q.config.checkTimeout
      (if 0 < stack.retry then stack.atTime else 0) := by
  unfold loadChecks at h
  obtain ⟨t₁, t₂, files, rfl, hfiles, hrest⟩ := Try.yields_bind_iff.mp h
  obtain ⟨t₃, t₄, runs, rfl, hruns, hrest⟩ := Try.yields_bind_iff.mp hrest
  rw [yields_call_iff] at hruns
  have hfirst : changedIn t₁ = files ∧ runsIn t₁ = [] := by
    unfold changedFiles at hfiles
    split at hfiles
    · refine hfiles.foldlM (fun _ files trace => changedIn trace = files ∧ runsIn trace = []) ?_ ⟨rfl, rfl⟩
      intro number rest files files' before round hbefore hround
      obtain ⟨front, back, changed, rfl, hcall, hpure⟩ := Try.yields_bind_iff.mp hround
      rw [yields_call_iff] at hcall
      rw [Try.yields_pure_iff] at hpure
      rw [hcall, hpure.1, hpure.2, List.append_nil, changedIn_append, runsIn_append, hbefore.1, hbefore.2]
      exact ⟨by simp [changedIn], rfl⟩
    · rw [Try.yields_pure_iff] at hfiles
      rw [hfiles.1, hfiles.2]
      exact ⟨rfl, rfl⟩
  have hchanged : ∀ t₄, changedIn t₄ = [] → changedIn (t₁ ++ (t₃ ++ t₄)) = files := by
    intro t₄ hnone
    rw [changedIn_append, changedIn_append, hfirst.1, hruns, hnone]
    exact List.append_nil files
  have hread : ∀ t₄, runsIn t₄ = [] → runsIn (t₁ ++ (t₃ ++ t₄)) = runs := by
    intro t₄ hnone
    rw [runsIn_append, runsIn_append, hfirst.2, hruns, hnone]
    simp [runsIn]
  dsimp only at hrest
  generalize (if 0 < stack.retry then stack.atTime else 0) = retriedAt at hrest ⊢
  split at hrest
  · split at hrest
    · rw [Try.yields_pure_iff] at hrest
      rw [hrest.1, hrest.2, hchanged [] rfl, hread [] rfl]
      exact ⟨rfl, rfl⟩
    · obtain ⟨t₅, t₆, workflowRuns, rfl, hcall, hpure⟩ := Try.yields_bind_iff.mp hrest
      rw [yields_call_iff] at hcall
      rw [Try.yields_pure_iff] at hpure
      rw [hcall, hpure.1, hpure.2, hchanged _ rfl, hread _ rfl]
      exact ⟨rfl, rfl⟩
  · obtain ⟨t₅, t₆, ids, rfl, hids, hpure⟩ := Try.yields_bind_iff.mp hrest
    rw [Try.yields_pure_iff] at hpure
    obtain ⟨hnoFiles, hnoRuns⟩ := yields_batchmateRuns hids
    rw [hpure.1, hpure.2, List.append_nil, hchanged _ hnoFiles, hread _ hnoRuns]
    exact ⟨rfl, rfl⟩
  · rw [Try.yields_pure_iff] at hrest
    rw [hrest.1, hrest.2, hchanged [] rfl, hread [] rfl]
    exact ⟨rfl, rfl⟩

theorem loaded_not_pending_iff {targetSHA : String} {queued : List QueuedPR} (h : Try.Yields (q.loadInFlight now targetSHA queued stack) trace inFlight)
    (hstale : staleReason stack targetSHA queued = none) (htimeout : q.config.checkTimeout ≤ now - stack.atTime) :
    inFlight.checks.state ≠ .pending ↔ Decided q.glob q.config.requiredChecks (changedIn trace) (runsIn trace) := by
  have hbase : ¬stack.base ≠ targetSHA := by
    intro hmoved
    rw [staleReason, if_pos hmoved] at hstale
    cases hstale
  unfold loadInFlight at h
  rw [if_neg hbase, hstale] at h
  rw [(yields_loadChecks h).2]
  exact evaluate_not_pending_iff htimeout

end Queue

namespace Snapshot

variable {snapshot : Snapshot} {inFlight : InFlight}

theorem resolve_of_pending (hlanded : inFlight.landed = false) (hstate : inFlight.checks.state = .pending) : snapshot.resolve (inFlight, none) =
    if inFlight.batchmateRuns.isEmpty then [] else [.cancel inFlight.stack inFlight.batchmateRuns] := by
  unfold resolve
  dsimp only
  rw [hlanded, if_neg Bool.false_ne_true, hstate]

theorem resolve_of_success (hlanded : inFlight.landed = false) (hstate : inFlight.checks.state = .success) :
    snapshot.resolve (inFlight, none) = [.advance inFlight.stack] := by
  unfold resolve
  dsimp only
  rw [hlanded, if_neg Bool.false_ne_true, hstate]

theorem resolve_of_failed (hlanded : inFlight.landed = false) (hpending : inFlight.checks.state ≠ .pending) (hsuccess : inFlight.checks.state ≠ .success) :
    snapshot.resolve (inFlight, none) = failureActions snapshot inFlight := by
  unfold resolve
  dsimp only
  rw [hlanded, if_neg Bool.false_ne_true]
  split
  · exact absurd ‹_› hpending
  · exact absurd ‹_› hsuccess
  · rfl

end Snapshot

/-! ### From tick to tick -/

def Action.settles (stack : Stack) : Action → Bool
  | advance other | split other _ | reject other _ _ _ => other = stack
  | _ => false

def Action.abandons (stack : Stack) : Action → Bool
  | abandon other _ _ => other = stack
  | _ => false

/-- What one tick finds of a stack: its snapshot, the stack in it, and what was read for it. -/
structure Look where
  snapshot : Snapshot
  inFlight : InFlight
  trace : List (Event Call.Ans)

namespace Look

def actions (q : Queue) (look : Look) : List Action := (planTick look.snapshot q.config).actions

/-- The tick has loaded the stack, which matches GitHub and is not given up for another. -/
structure Sees (q : Queue) (stack : Stack) (look : Look) : Prop where
  mem : look.inFlight ∈ look.snapshot.inFlight
  loaded : Try.Yields (q.loadInFlight look.snapshot.now look.snapshot.targetSHA look.snapshot.queued stack) look.trace look.inFlight
  live : staleReason stack look.snapshot.targetSHA look.snapshot.queued = none
  kept : ∀ action ∈ look.actions q, action.abandons stack = false

/-- The stack as the tick leaves it on record: as it was, or with its retry. -/
def after (look : Look) : Stack :=
  ((look.snapshot.resolve (look.inFlight, none)).findSome? fun
    | .retry retried _ _ => some retried.seconds
    | _ => none).getD look.inFlight.stack

def Resolves (q : Queue) (look : Look) : Prop := ∃ action ∈ look.actions q, action.settles look.inFlight.stack = true

instance (q : Queue) (look : Look) : Decidable (look.Resolves q) := inferInstanceAs (Decidable (∃ action ∈ _, _))

variable {q : Queue} {stack : Stack} {look : Look}

theorem Sees.loadChecks (h : look.Sees q stack) : Try.Yields (q.loadChecks look.snapshot.now stack) look.trace look.inFlight := by
  have hbase : ¬stack.base ≠ look.snapshot.targetSHA := by
    intro hmoved
    have hlive := h.live
    rw [staleReason, if_pos hmoved] at hlive
    cases hlive
  have hloaded := h.loaded
  unfold Queue.loadInFlight at hloaded
  rw [if_neg hbase, h.live] at hloaded
  exact hloaded

theorem Sees.stack_eq (h : look.Sees q stack) : look.inFlight.stack = stack := (Queue.yields_loadChecks h.loadChecks).1

theorem Sees.mem_actions (h : look.Sees q stack) (hlanded : look.inFlight.landed = false) {action : Action}
    (haction : action ∈ look.snapshot.resolve (look.inFlight, none)) : action ∈ look.actions q := by
  obtain ⟨stale, hmarked⟩ := Snapshot.exists_marked h.mem
  have hplanned : ∀ action ∈ look.snapshot.resolve (look.inFlight, stale), action ∈ look.actions q := by
    intro action haction
    apply List.mem_append_left
    apply List.mem_append_left
    exact List.mem_flatMap.mpr ⟨_, hmarked, haction⟩
  cases stale with
  | none => exact hplanned action haction
  | some reason =>
    have habandon : Action.abandon stack (stack.numbers.filter (· ∉ look.snapshot.claimed)) reason ∈ look.snapshot.resolve (look.inFlight, some reason) := by
      unfold Snapshot.resolve
      dsimp only
      rw [hlanded, if_neg Bool.false_ne_true, h.stack_eq]
      exact List.mem_cons_self
    have hkept := h.kept _ (hplanned _ habandon)
    simp [Action.abandons] at hkept

end Look

namespace Queue

variable {q : Queue} {now : Int} {stack : Stack} {trace : List (Event Call.Ans)} {inFlight : InFlight}

theorem landed_loadChecks (h : Try.Yields (q.loadChecks now stack) trace inFlight) : inFlight.landed = false := by
  unfold loadChecks at h
  obtain ⟨_, _, files, rfl, -, hrest⟩ := Try.yields_bind_iff.mp h
  obtain ⟨_, _, runs, rfl, -, hrest⟩ := Try.yields_bind_iff.mp hrest
  dsimp only at hrest
  generalize (if 0 < stack.retry then stack.atTime else 0) = retriedAt at hrest
  split at hrest
  · split at hrest
    · rw [Try.yields_pure_iff] at hrest
      rw [hrest.2]
    · obtain ⟨_, _, workflowRuns, rfl, -, hpure⟩ := Try.yields_bind_iff.mp hrest
      rw [Try.yields_pure_iff] at hpure
      rw [hpure.2]
  · obtain ⟨_, _, ids, rfl, -, hpure⟩ := Try.yields_bind_iff.mp hrest
    rw [Try.yields_pure_iff] at hpure
    rw [hpure.2]
  · rw [Try.yields_pure_iff] at hrest
    rw [hrest.2]

end Queue

namespace Look

variable {q : Queue} {stack : Stack} {look : Look}

theorem Sees.cases (h : look.Sees q stack) : (look.inFlight.checks.state = .pending ∧ look.after = stack) ∨ look.Resolves q ∨
    stack.retry = 0 ∧ look.after = { stack with retry := 1, atTime := truncateSecond look.snapshot.now }.seconds := by
  have hlanded := Queue.landed_loadChecks h.loadChecks
  have hstack := h.stack_eq
  have hsettles : ∀ {action : Action}, action ∈ look.snapshot.resolve (look.inFlight, none) → action.settles look.inFlight.stack = true → look.Resolves q :=
    fun haction hsettled => ⟨_, h.mem_actions hlanded haction, hsettled⟩
  have hfailure : look.snapshot.resolve (look.inFlight, none) = failureActions look.snapshot look.inFlight → look.Resolves q ∨
      stack.retry = 0 ∧ look.after = { stack with retry := 1, atTime := truncateSecond look.snapshot.now }.seconds := by
    intro hactions
    unfold failureActions at hactions
    dsimp only at hactions
    split at hactions
    · rename_i hretry
      simp only [Bool.and_eq_true, decide_eq_true_eq] at hretry
      refine Or.inr ⟨hstack ▸ hretry.1, ?_⟩
      rw [after, hactions, ← hstack]
      rfl
    · split at hactions
      · refine Or.inl (hsettles (by rw [hactions]; exact List.mem_cons_self) ?_)
        exact decide_eq_true rfl
      · refine Or.inl (hsettles (by rw [hactions]; exact List.mem_cons_self) ?_)
        exact decide_eq_true rfl
  cases hstate : look.inFlight.checks.state with
  | pending =>
    refine Or.inl ⟨rfl, ?_⟩
    rw [after, Snapshot.resolve_of_pending hlanded hstate, ← hstack]
    split <;> rfl
  | success =>
    have hadvance : Action.advance look.inFlight.stack ∈ look.snapshot.resolve (look.inFlight, none) := by
      rw [Snapshot.resolve_of_success hlanded hstate]
      exact List.mem_cons_self
    exact Or.inr (Or.inl (hsettles hadvance (decide_eq_true rfl)))
  | failure => exact Or.inr (hfailure (Snapshot.resolve_of_failed hlanded (by rw [hstate]; decide) (by rw [hstate]; decide)))
  | unset => exact Or.inr (hfailure (Snapshot.resolve_of_failed hlanded (by rw [hstate]; decide) (by rw [hstate]; decide)))

/-- Ticks that see the stack one after another, each as the one before has left it. -/
inductive Watched (q : Queue) : Stack → List Look → Prop
  | last {stack : Stack} {look : Look} (hsees : look.Sees q stack) : Watched q stack [look]
  | more {stack : Stack} {look : Look} {rest : List Look} (hsees : look.Sees q stack) (hopen : ¬look.Resolves q) (hrest : Watched q look.after rest) :
      Watched q stack (look :: rest)

def Paced (gap : Int) : Int → List Look → Prop
  | _, [] => True
  | start, look :: rest => look.snapshot.now ≤ start + gap ∧ Paced gap look.snapshot.now rest

def Informed (q : Queue) (look : Look) : Prop :=
  q.config.checkTimeout ≤ look.snapshot.now - look.inFlight.stack.atTime →
    Decided q.glob q.config.requiredChecks (changedIn look.trace) (runsIn look.trace)

theorem ofUnix_unix_le (t : Int) : ofUnix (unix t) ≤ t := by
  unfold ofUnix unix
  have hfloor := Int.ediv_mul_le (t - unixEpoch) (by decide : Duration.second ≠ 0)
  omega

theorem truncateSecond_le (t : Int) : truncateSecond t ≤ t := Int.ediv_mul_le t (by decide)

theorem Sees.not_pending (h : look.Sees q stack) (hinformed : look.Informed q) (htimeout : q.config.checkTimeout ≤ look.snapshot.now - stack.atTime) :
    look.inFlight.checks.state ≠ .pending :=
  (Queue.loaded_not_pending_iff h.loaded h.live htimeout).mpr (hinformed (by rw [h.stack_eq]; exact htimeout))

/-- A stack that was not retried has been seen last before its timeout; one that was retried was retried at most one gap after it. -/
def Within (q : Queue) (gap start : Int) (stack : Stack) (previous : Int) : Prop :=
  (stack.retry = 0 ∧ stack.atTime ≤ start ∧ previous < start + q.config.checkTimeout) ∨
    (stack.retry = 1 ∧ stack.atTime ≤ start + q.config.checkTimeout + gap)

theorem Sees.within {gap start previous : Int} (h : look.Sees q stack) (hinformed : look.Informed q) (hopen : ¬look.Resolves q)
    (hwithin : Within q gap start stack previous) (hpaced : look.snapshot.now ≤ previous + gap) :
    Within q gap start look.after look.snapshot.now := by
  rcases h.cases with ⟨hpending, hafter⟩ | hresolves | ⟨hretry, hafter⟩
  · rw [hafter]
    rcases hwithin with ⟨hretry, hat, -⟩ | hretried
    · refine Or.inl ⟨hretry, hat, ?_⟩
      by_contra hlate
      exact h.not_pending hinformed (by omega) hpending
    · exact Or.inr hretried
  · exact absurd hresolves hopen
  · rw [hafter]
    rcases hwithin with ⟨-, -, hprevious⟩ | ⟨hretried, -⟩
    · refine Or.inr ⟨rfl, ?_⟩
      have hseconds : ({ stack with retry := 1, atTime := truncateSecond look.snapshot.now } : Stack).seconds.atTime ≤ look.snapshot.now :=
        (ofUnix_unix_le _).trans (truncateSecond_le _)
      omega
    · omega

theorem Watched.resolves {gap start : Int} {looks : List Look} (htimeout : 0 < q.config.checkTimeout) (h : Watched q stack looks) {previous : Int}
    (hwithin : Within q gap start stack previous) (hpaced : Paced gap previous looks) (hinformed : ∀ look ∈ looks, look.Informed q) {last : Look}
    (hlast : looks.getLast? = some last) (hlate : start + 2 * q.config.checkTimeout + gap ≤ last.snapshot.now) : last.Resolves q := by
  induction h generalizing previous with
  | @last stack look hsees =>
    obtain rfl : look = last := by simpa using hlast
    have hnow := hpaced.1
    rcases hwithin with ⟨-, -, hprevious⟩ | ⟨hretried, hat⟩
    · omega
    · rcases hsees.cases with ⟨hpending, -⟩ | hresolves | ⟨hretry, -⟩
      · exact absurd hpending (hsees.not_pending (hinformed look List.mem_cons_self) (by omega))
      · exact hresolves
      · omega
  | @more stack look rest hsees hopen hrest ih =>
    refine ih (hsees.within (hinformed look List.mem_cons_self) hopen hwithin hpaced.1) hpaced.2
      (fun other hother => hinformed other (List.mem_cons_of_mem look hother)) ?_
    cases rest with
    | nil => cases hrest
    | cons next rest => simpa using hlast

end Look

/-- At the timeout a stack has a verdict exactly if there is something to go by; where every tick finds that, a live stack is settled by the first tick two timeouts and one gap after it was formed. -/
theorem timed_out_stack_resolves_iff (q : Queue) (htimeout : 0 < q.config.checkTimeout) :
    (∀ now targetSHA queued stack trace inFlight, Try.Yields (q.loadInFlight now targetSHA queued stack) trace inFlight →
      staleReason stack targetSHA queued = none → q.config.checkTimeout ≤ now - stack.atTime →
      (inFlight.checks.state ≠ .pending ↔ Decided q.glob q.config.requiredChecks (changedIn trace) (runsIn trace))) ∧
    ∀ stack start gap looks last, stack.retry = 0 → stack.atTime = ofUnix (unix start) → Look.Watched q stack looks → Look.Paced gap start looks →
      (∀ look ∈ looks, Look.Informed q look) → looks.getLast? = some last → start + 2 * q.config.checkTimeout + gap ≤ last.snapshot.now →
      last.Resolves q := by
  refine ⟨fun now targetSHA queued stack trace inFlight h hstale hage => Queue.loaded_not_pending_iff h hstale hage, ?_⟩
  intro stack start gap looks last hretry hformed hwatched hpaced hinformed hlast hlate
  refine hwatched.resolves htimeout (Or.inl ⟨hretry, ?_, ?_⟩) hpaced hinformed hlast hlate
  · rw [hformed]
    exact Look.ofUnix_unix_le start
  · omega

namespace Demo

def timed : Queue where
  config := { target := "main", label := "queue", batchSize := 1, requiredChecks := [⟨"ci", []⟩], checkTimeout := 100 * Duration.second }
  botLogin := "queue[bot]"
  glob := fun _ _ => false

def clock (seconds : Int) : Int := ofUnix seconds

def alone (retry since : Int) : Stack := { base := sha '0', members := [{ number := 1, sha := sha 'a' }], retry, atTime := clock since }

def look (seconds : Int) (inFlight : InFlight) (trace : List (Event Call.Ans)) : Look where
  snapshot := {
    now := clock seconds
    targetSHA := sha '0'
    queued := [{ number := 1, headSHA := sha 'a', headRef := "one", baseRef := "main", sameRepo := true, draft := false, labeledAt := 1, labeledBy := "alice" }]
    inFlight := [inFlight] }
  inFlight
  trace

def ci (id : Int) (status conclusion : String) (startedAt : Int) : CheckRun :=
  { id, name := "ci", status, conclusion, url := "", suiteID := 7, startedAt := clock startedAt }

def waits (seconds : Int) (stack : Stack) (id : Int) : Look :=
  look seconds { stack, checks := { state := .pending } } [⟨.checkRuns (sha 'a'), .ok [ci id "in_progress" "" 0]⟩]

def fails : Look :=
  look 120 { stack := alone 0 0, checks := { state := .failure, failing := ["ci"], suites := [7] }, rerunIDs := [70] }
    [⟨.checkRuns (sha 'a'), .ok [ci 1 "completed" "failure" 0]⟩, ⟨.workflowRuns (sha 'a'), .ok [⟨70, "pull_request", "completed", "failure", 7⟩]⟩]

def failsAgain : Look :=
  look 275 { stack := alone 1 120, checks := { state := .failure, failing := ["ci"], suites := [7] } }
    [⟨.checkRuns (sha 'a'), .ok [ci 2 "completed" "failure" 121]⟩]

theorem watched : Look.Watched timed (alone 0 0) [waits 60 (alone 0 0) 1, fails, waits 180 (alone 1 120) 2, waits 215 (alone 1 120) 2, failsAgain] := by
  refine .more ⟨List.mem_cons_self, .call (.pure _), by decide, by decide⟩ (by decide) ?_
  refine .more ⟨List.mem_cons_self, .call (.call (.pure _)), by decide, by decide⟩ (by decide) ?_
  refine .more ⟨List.mem_cons_self, .call (.pure _), by decide, by decide⟩ (by decide) ?_
  refine .more ⟨List.mem_cons_self, .call (.pure _), by decide, by decide⟩ (by decide) ?_
  exact .last ⟨List.mem_cons_self, .call (.pure _), by decide, by decide⟩

theorem decided_of_failure {glob : String → String → Bool} {run : CheckRun} (hname : run.name = "ci") (hcompleted : run.status = "completed")
    (hfailed : passed run.conclusion = false) : Decided glob [⟨"ci", []⟩] [] [run] := by
  refine Or.inr ⟨_, List.mem_cons_self, rfl, Or.inr ⟨run, ?_, hcompleted, hfailed⟩⟩
  simp [newest, newer, hname]

theorem informed : ∀ look ∈ [waits 60 (alone 0 0) 1, fails, waits 180 (alone 1 120) 2, waits 215 (alone 1 120) 2, failsAgain], look.Informed timed := by
  intro look hlook
  simp only [List.mem_cons, List.not_mem_nil, or_false] at hlook
  rcases hlook with rfl | rfl | rfl | rfl | rfl
  · exact fun h => absurd h (by decide)
  · exact fun _ => decided_of_failure rfl rfl rfl
  · exact fun h => absurd h (by decide)
  · exact fun h => absurd h (by decide)
  · exact fun _ => decided_of_failure rfl rfl rfl

end Demo

/-- Ticks a minute apart at most, and a timeout of 100 seconds. -/
theorem timed_out_stack_resolves_after_retry : 0 < Demo.timed.config.checkTimeout ∧ Demo.failsAgain.Resolves Demo.timed :=
  ⟨by decide, (timed_out_stack_resolves_iff Demo.timed (by decide)).2 (Demo.alone 0 0) (Demo.clock 0) (60 * Duration.second) _ Demo.failsAgain rfl
    (by decide) Demo.watched ⟨by decide, by decide, by decide, by decide, by decide, trivial⟩ Demo.informed rfl (by decide)⟩

/-- A check that never ends: the stack is as pending after an hour as in its first minute. -/
theorem running_check_outlives_timeout :
    Try.Yields (Demo.timed.loadInFlight (Demo.clock 3600) (Demo.sha '0') (Demo.waits 3600 (Demo.alone 0 0) 1).snapshot.queued (Demo.alone 0 0))
      [⟨.checkRuns (Demo.sha 'a'), .ok [Demo.ci 1 "in_progress" "" 0]⟩] (Demo.waits 3600 (Demo.alone 0 0) 1).inFlight ∧
    staleReason (Demo.alone 0 0) (Demo.sha '0') (Demo.waits 3600 (Demo.alone 0 0) 1).snapshot.queued = none ∧
    36 * Demo.timed.config.checkTimeout ≤ Demo.clock 3600 - (Demo.alone 0 0).atTime ∧
    (Demo.waits 3600 (Demo.alone 0 0) 1).inFlight.checks.state = .pending ∧ (Demo.waits 3600 (Demo.alone 0 0) 1).actions Demo.timed = [] :=
  ⟨.call (.pure _), by decide, by decide, rfl, by decide⟩

end MergeQueue

end RunnerYard
