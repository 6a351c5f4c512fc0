import RunnerYard.Interaction.Runs
import RunnerYard.Provider.Error
import Mathlib.Tactic

/-!
# The sessions of the scale sets

`superviseScaleSets`, `superviseSession` and `runScaleSetSession` of `controller.go`: a goroutine for each scale set keeps its session open. They share a channel that is closed once the first one has recovered the workers, and a context that ends when the caller or the first failure ends it. A pause may take any time, so the backoff is left out.
-/

namespace RunnerYard

open Interaction

/-- Where `superviseSession` stands. `ended` is behind the end of a session, or of the attempt to open one, with its error. -/
inductive Stage where
  | awaiting
  | opening
  | recovering
  | starting
  | listening
  | ended (err : Option Err)
  | pausing
  | stopped (result : Option Err)
  deriving DecidableEq

def Stage.isStopped : Stage → Bool
  | stopped _ => true
  | _ => false

structure Supervisor where
  stage : Stage
  recoverWorkers : Bool

/-- What `superviseSession` does when its call returns `err`. `done` takes the context's case of a select, or says that the listener's `err` is `context.Canceled`. -/
def Supervisor.next (recovered cancelled : Bool) (err : Option Err) (done : Bool) (s : Supervisor) : Option Supervisor :=
  let fatal (what : String) (e : Err) : Supervisor := ⟨.ended (Err.failClosed (some (.wrap what e))), false⟩
  match s.stage with
  | .awaiting => if done then if cancelled then some { s with stage := .stopped none } else none
    else if recovered then some { s with stage := .opening } else none
  | .opening => match err with
    | some e => some { s with stage := .ended (some (.wrap "create message session" e)) }
    | none => some { s with stage := if s.recoverWorkers then .recovering else .starting }
  | .recovering => match err with
    | some e => some (fatal "recover workers" e)
    | none => some { s with stage := .starting }
  | .starting => match err with
    | some e => some (fatal "create scale set listener" e)
    | none => some { s with stage := .listening }
  | .listening => some ⟨.ended (if done then none else err.map (.wrap "run scale set listener")), false⟩
  | .ended e => some { s with stage := if cancelled then .stopped none else if e.any Err.isHandlerFailure then .stopped e else .pausing }
  | .pausing => if done then if cancelled then some { s with stage := .stopped none } else none else some { s with stage := .opening }
  | .stopped _ => none

/-- `superviseScaleSets`, which returns `failure` once it has `received` a result of every supervisor. Of the run it is recorded whether the `caller` has cancelled, and how often `recover` was run. -/
structure Supervision where
  sets : List Supervisor
  recovered : Bool := false
  cancelled : Bool := false
  results : List (Option Err) := []
  received : Nat := 0
  failure : Option Err := none
  caller : Bool := false
  recoveries : Nat := 0

namespace Supervision

/-- The caller cancels; the next result is received; or the supervisor at `i` goes on. -/
inductive Label where
  | cancel
  | receive
  | go (i : Nat) (err : Option Err) (done : Bool)

def after (s : Supervision) (i : Nat) (set set' : Supervisor) (err : Option Err) : Supervision :=
  { s with
    sets := s.sets.set i set'
    recovered := s.recovered || (i = 0 && set.stage = .recovering && err.isNone)
    recoveries := if set.stage = .recovering then s.recoveries + 1 else s.recoveries
    results := match set'.stage with
      | .stopped result => s.results ++ [result]
      | _ => s.results }

def step : Label → Supervision → Option Supervision
  | .cancel, s => some { s with cancelled := true, caller := true }
  | .receive, s => match s.results with
    | [] => none
    | result :: results => some { s with
        results
        received := s.received + 1
        failure := s.failure.or result
        cancelled := s.cancelled || result.isSome }
  | .go i err done, s => do
    let set ← s.sets[i]?
    let set' ← set.next s.recovered s.cancelled err done
    return s.after i set set' err

/-- The first supervisor recovers the workers, and the others wait for it. -/
def initial (others : Nat) : Supervision where
  sets := ⟨.opening, true⟩ :: List.replicate others ⟨.awaiting, false⟩

/-- A supervisor stops because the context has ended, or with the failure of a handler. -/
def Explains (s : Supervision) (result : Option Err) : Prop := result.elim (s.cancelled = true) (·.isHandlerFailure = true)

/-- The recovery is still this supervisor's to make, or it was made. -/
def Knows (s : Supervision) (i : Nat) (set : Supervisor) : Prop :=
  if set.recoverWorkers then i = 0 ∧ s.recoveries = 0 else s.recovered = true

def Sound (s : Supervision) (i : Nat) (set : Supervisor) : Prop :=
  match set.stage with
  | .awaiting => set.recoverWorkers = false ∧ i ≠ 0
  | .recovering => i = 0 ∧ s.recoveries = 0
  | .starting | .listening => s.recovered = true
  | .opening | .pausing => s.Knows i set
  | .ended err => err.any Err.isHandlerFailure = true ∨ s.Knows i set
  | .stopped result => s.Explains result

structure Inv (s : Supervision) : Prop where
  sets : ∀ i set, s.sets[i]? = some set → s.Sound i set
  once : s.recoveries ≤ 1
  cancelled : s.cancelled = true → s.caller = true ∨ s.failure.isSome = true
  sent : ∀ result ∈ s.results, s.Explains result
  failure : ∀ e, s.failure = some e → e.isHandlerFailure = true
  quiet : 0 < s.received → s.cancelled = true
  count : s.received + s.results.length = s.sets.countP (·.stage.isStopped)
  size : 0 < s.sets.length

variable {s s' : Supervision} {i j : Nat} {set set' : Supervisor} {err : Option Err} {done : Bool}

theorem Explains.mono {result : Option Err} (h : s.Explains result) (hcancelled : s.cancelled = true → s'.cancelled = true) :
    s'.Explains result := by
  cases result with
  | none => exact hcancelled h
  | some e => exact h

/-- A step, seen from a supervisor that does not make it: only the first one recovers. -/
theorem Sound.frame (h : s.Sound j set) (hrecovered : s.recovered = true → s'.recovered = true)
    (hcancelled : s.cancelled = true → s'.cancelled = true) (hrecoveries : j = 0 → s'.recoveries = s.recoveries) : s'.Sound j set := by
  have hknows : s.Knows j set → s'.Knows j set := by
    unfold Knows
    split
    · exact fun hfirst => ⟨hfirst.1, (hrecoveries hfirst.1).trans hfirst.2⟩
    · exact hrecovered
  unfold Sound at *
  split at h
  · exact h
  · exact ⟨h.1, (hrecoveries h.1).trans h.2⟩
  · exact hrecovered h
  · exact hrecovered h
  · exact hknows h
  · exact hknows h
  · exact h.imp_right hknows
  · exact h.mono hcancelled

theorem any_failClosed (e : Err) : (Err.failClosed (some e)).any Err.isHandlerFailure = true := by
  unfold Err.failClosed
  dsimp only
  split
  · assumption
  · rfl

theorem Inv.sound_after (h : s.Inv) (hset : s.sets[i]? = some set) (hnext : set.next s.recovered s.cancelled err done = some set') :
    (s.after i set set' err).Sound i set' := by
  have hsound := h.sets i set hset
  obtain ⟨stage, recoverWorkers⟩ := set
  unfold Supervisor.next at hnext
  unfold Sound Knows at hsound ⊢
  cases stage with
  | awaiting | pausing =>
    dsimp only at hnext
    split_ifs at hnext <;> cases hnext <;> simp_all [after, Explains]
  | opening =>
    cases err <;> cases hnext
    · cases recoverWorkers <;> simp_all [after]
    · simp_all [after]
  | recovering | starting =>
    cases err <;> cases hnext
    · simp_all [after]
    · exact Or.inl (any_failClosed _)
  | listening =>
    cases hnext
    simp_all [after]
  | ended e =>
    cases hnext
    cases e <;> split_ifs <;> simp_all [after, Explains]
  | stopped result => cases hnext

theorem Inv.go (h : s.Inv) (hset : s.sets[i]? = some set) (hnext : set.next s.recovered s.cancelled err done = some set') :
    (s.after i set set' err).Inv := by
  have hrecovering : set.stage = .recovering → i = 0 ∧ s.recoveries = 0 := by
    intro hstage
    simpa only [Sound, hstage] using h.sets i set hset
  have hsound := h.sound_after hset hnext
  obtain ⟨hlt, hat⟩ := List.getElem?_eq_some_iff.mp hset
  refine ⟨fun j other hother => ?_, ?_, h.cancelled, fun result hresult => ?_, h.failure, h.quiet, ?_, ?_⟩
  · by_cases hne : j = i
    · subst hne
      obtain rfl : set' = other := by simpa [after, List.getElem?_set, hlt] using hother
      exact hsound
    · refine (h.sets j other (by simpa [after, List.getElem?_set, Ne.symm hne] using hother)).frame ?_ id fun hj => ?_
      · simp +contextual [after]
      · exact if_neg fun hstage => hne (hj.trans (hrecovering hstage).1.symm)
  · have honce := h.once
    unfold after
    dsimp only
    split
    · rw [(hrecovering ‹_›).2]
    · exact honce
  · unfold after at hresult
    dsimp only at hresult
    split at hresult
    · rename_i last hstopped
      rcases List.mem_append.mp hresult with hmem | hlast
      · exact h.sent result hmem
      · simp only [Sound, hstopped] at hsound
        exact List.mem_singleton.mp hlast ▸ hsound
    · exact h.sent result hresult
  · have hcount := h.count
    have hgoing : set.stage.isStopped = false := by
      cases hstage : set.stage <;> simp_all [Supervisor.next, Stage.isStopped]
    simp only [after, List.countP_set hlt, hat, hgoing]
    cases hstage : set'.stage <;> simp_all [Stage.isStopped]
    omega
  · simpa [after] using h.size

theorem Inv.step {label : Label} (h : s.Inv) (hstep : step label s = some s') : s'.Inv := by
  cases label with
  | cancel =>
    cases hstep
    refine ⟨fun i set hset => ?_, h.once, fun _ => Or.inl rfl, fun result hresult => ?_, h.failure, fun _ => rfl, h.count, h.size⟩
    · exact (h.sets i set hset).frame id (fun _ => rfl) fun _ => rfl
    · exact (h.sent result hresult).mono fun _ => rfl
  | receive =>
    simp only [Supervision.step] at hstep
    cases hresults : s.results with
    | nil => simp [hresults] at hstep
    | cons result rest =>
      simp only [hresults, Option.some.injEq] at hstep
      have hfirst : s.Explains result := h.sent result (by simp [hresults])
      obtain ⟨hsets, honce, hended, hsent, hfailure, -, hcount, hsize⟩ := h
      have hcancelled : s.cancelled = true → (s.cancelled || result.isSome) = true := by simp +contextual
      subst hstep
      refine ⟨fun i set hset => (hsets i set hset).frame id hcancelled fun _ => rfl, honce, ?_,
        fun other hother => (hsent other (by simp [hresults, hother])).mono hcancelled, ?_, ?_, ?_, hsize⟩
      · cases result <;> cases hfail : s.failure <;> simp_all
      · cases result <;> cases hfail : s.failure <;> simp_all [Explains]
      · cases result <;> simp_all [Explains]
      · simp_all
        omega
  | go i err done =>
    obtain ⟨set, hset, hgo⟩ := Option.bind_eq_some_iff.mp hstep
    obtain ⟨set', hnext, heq⟩ := Option.bind_eq_some_iff.mp hgo
    cases heq
    exact h.go hset hnext

theorem inv_initial (others : Nat) : (initial others).Inv := by
  refine ⟨fun i set hset => ?_, Nat.zero_le _, by simp [initial], by simp [initial], by simp [initial], by simp [initial], by simp [initial, List.countP_replicate, Stage.isStopped], by simp [initial]⟩
  cases i with
  | zero =>
    cases hset
    exact ⟨rfl, rfl⟩
  | succ i =>
    obtain rfl := List.eq_of_mem_replicate (List.mem_of_getElem? hset)
    exact ⟨rfl, Nat.succ_ne_zero i⟩

/-- Both sessions are open when a handler of the second one fails; the failure ends the other one too. -/
def failing : List Label :=
  [.go 0 none false, .go 0 none false, .go 0 none false, .go 1 none false, .go 1 none false, .go 1 none false,
    .go 1 (some (.handlerFailure (.disk "ledger"))) false, .go 1 none false, .receive, .go 0 (some (.text "context canceled")) true, .go 0 none false, .receive]

end Supervision

end RunnerYard
