import RunnerYard.MergeQueue.Checks
import RunnerYard.MergeQueue.Marker

/-!
# The plan of a tick

`PlanTick` of `plan.go` decides a tick from a snapshot of GitHub. Stacks in flight resolve first: one that the target already contains is recorded, one that no longer matches GitHub is abandoned, the first green one lands and all others are then abandoned, a red one is retried once and then split or rejected. A new stack forms only if nothing resolved and nothing is in flight.
-/

namespace RunnerYard

namespace MergeQueue

/-- An open pull request that carries the queue label. `labeledAt` is zero if no event says when the label was added. -/
structure PR where
  number : Int
  headSHA : String
  headRef : String
  baseRef : String
  sameRepo : Bool
  draft : Bool
  labeledAt : Int
  labeledBy : String
  deriving DecidableEq, Repr

structure QueuedPR extends PR where
  labelerCanWrite : Bool := false
  owns : List Own := []
  landed : Bool := false
  deriving DecidableEq, Repr

/-- A stack found through the marker on its top pull request. -/
structure InFlight where
  stack : Stack
  landed : Bool := false
  checks : Status := {}
  rerunIDs : List Int := []
  batchmateRuns : List Int := []
  deriving DecidableEq, Repr

structure Snapshot where
  now : Int
  targetSHA : String
  queued : List QueuedPR
  inFlight : List InFlight
  deriving DecidableEq, Repr

structure Config where
  target : String
  label : String
  batchSize : Int
  requiredChecks : List RequiredCheck
  checkTimeout : Int
  deriving DecidableEq, Repr

inductive Action where
  | form (prs : List Int) (base : String)
  | advance (stack : Stack)
  | landed (stack : Stack)
  | retry (stack : Stack) (runIDs : List Int) (reason : String)
  | reject (stack : Stack) (number : Int) (reason : String) (urls : List String)
  | split (stack : Stack) (reason : String)
  | abandon (stack : Stack) (prs : List Int) (reason : String)
  | cancel (stack : Stack) (runIDs : List Int)
  | comment (number : Int) (body : String)
  deriving DecidableEq, Repr

structure Plan where
  actions : List Action
  idle : Bool
  deriving DecidableEq, Repr

/-- `Split` of `bisect.go`. -/
def split (prs : List Int) : List Int × List Int :=
  if prs.length < 2 then (prs, []) else (prs.take ((prs.length + 1) / 2), prs.drop ((prs.length + 1) / 2))

/-- The map of queued pull requests by number; a later one replaces an earlier one. -/
def lookup (queued : List QueuedPR) (number : Int) : Option QueuedPR := queued.reverse.find? (·.number = number)

/-- Why a member does not match the queue any more. -/
def memberStale (queued : List QueuedPR) (member : Member) : Option String :=
  match lookup queued member.number with
  | none => some ("#" ++ Text.itoa member.number ++ " left the queue")
  | some pr => if pr.headSHA ≠ member.sha then some ("#" ++ Text.itoa member.number ++ " was pushed to while the stack was tested") else none

/-- `staleReason`; `none` is the empty text. -/
def staleReason (stack : Stack) (targetSHA : String) (queued : List QueuedPR) : Option String :=
  if stack.base ≠ targetSHA then some "the target branch moved while the stack was tested" else stack.members.findSome? (memberStale queued)

/-- `ineligibleReason`; `none` is the empty text. -/
def ineligibleReason (pr : QueuedPR) (config : Config) : Option String :=
  if !pr.sameRepo then some "the queue only lands branches of this repository, not forks"
  else if pr.draft then some "it is a draft"
  else if pr.baseRef ≠ config.target then some ("it targets `" ++ pr.baseRef ++ "`, and the queue lands on `" ++ config.target ++ "`")
  else if !pr.labelerCanWrite then some ("the `" ++ config.label ++ "` label must be added by someone with write access")
  else none

def truncateSecond (t : Int) : Int := t / Duration.second * Duration.second

def failureActions (snapshot : Snapshot) (inFlight : InFlight) : List Action :=
  let stack := inFlight.stack
  let reason := "required checks failed: " ++ Text.join ", " inFlight.checks.failing
  if stack.retry = 0 && !inFlight.rerunIDs.isEmpty then
    [.retry { stack with retry := 1, atTime := truncateSecond snapshot.now } inFlight.rerunIDs reason]
  else if stack.members.length = 1 then
    [.reject stack (stack.members.headD default).number reason inFlight.checks.urls]
  else
    [.split stack reason, .form (split stack.numbers).1 stack.base, .form (split stack.numbers).2 stack.base]

namespace Snapshot

variable (snapshot : Snapshot)

def stale (inFlight : InFlight) : Option String :=
  if inFlight.landed then none else staleReason inFlight.stack snapshot.targetSHA snapshot.queued

def ready (inFlight : InFlight) : Bool := !inFlight.landed && (snapshot.stale inFlight).isNone && inFlight.checks.state == .success

def advancing : Option Nat := snapshot.inFlight.findIdx? snapshot.ready

/-- The stacks with what makes them stale, once one of them lands. -/
def marked : List (InFlight × Option String) :=
  snapshot.inFlight.mapIdx fun i inFlight =>
    match snapshot.advancing with
    | some first =>
      if i ≠ first && !inFlight.landed && (snapshot.stale inFlight).isNone then
        (inFlight, some ("the stack of " ++ refs ((snapshot.inFlight.getD first inFlight).stack.numbers) ++ " lands first"))
      else (inFlight, snapshot.stale inFlight)
    | none => (inFlight, snapshot.stale inFlight)

/-- The members of landed and live stacks. -/
def claimed : List Int := snapshot.marked.flatMap fun (inFlight, stale) => if inFlight.landed || stale.isNone then inFlight.stack.numbers else []

def waits : InFlight × Option String → Bool
  | (inFlight, stale) => !inFlight.landed && stale.isNone && inFlight.checks.state == .pending

def resolve : InFlight × Option String → List Action
  | (inFlight, stale) =>
    if inFlight.landed then [.landed inFlight.stack]
    else match stale with
      | some reason => [.abandon inFlight.stack (inFlight.stack.numbers.filter (· ∉ snapshot.claimed)) reason]
      | none =>
        match inFlight.checks.state with
        | .pending => if inFlight.batchmateRuns.isEmpty then [] else [.cancel inFlight.stack inFlight.batchmateRuns]
        | .success => [.advance inFlight.stack]
        | _ => failureActions snapshot inFlight

/-- The pull requests that are in no stack of the snapshot and have not landed. -/
def free : List QueuedPR :=
  snapshot.queued.filter fun pr => !pr.landed && pr.number ∉ snapshot.marked.flatMap fun (inFlight, _) => inFlight.stack.numbers

variable (config : Config)

def resolved : Bool := snapshot.marked.any fun entry => !waits entry

def candidates : List QueuedPR := snapshot.free.filter fun pr => (ineligibleReason pr config).isNone

/-- The members of the next stack. A batch size below zero is never reached. -/
def next : List QueuedPR :=
  if !snapshot.resolved && (snapshot.marked.filter waits).isEmpty then
    if config.batchSize < 0 then snapshot.candidates config else (snapshot.candidates config).take config.batchSize.toNat
  else []

def waiting : List QueuedPR := (snapshot.candidates config).drop (snapshot.next config).length

/-- The status comments of the pull requests that are in no stack. -/
def comments : List Action :=
  (snapshot.free.filterMap fun pr => (ineligibleReason pr config).map fun reason =>
    .comment pr.number (ineligibleComment reason config.label pr.owns)) ++
  (snapshot.waiting config).mapIdx fun i pr => .comment pr.number (waitingComment (i + 1) (snapshot.waiting config).length pr.owns)

end Snapshot

def planTick (snapshot : Snapshot) (config : Config) : Plan where
  actions := snapshot.marked.flatMap snapshot.resolve ++ snapshot.comments config ++
    if (snapshot.next config).isEmpty then [] else [.form ((snapshot.next config).map (·.number)) snapshot.targetSHA]
  idle := !snapshot.resolved && (snapshot.next config).isEmpty

/-! ### What a plan can hold -/

theorem mem_of_lookup {queued : List QueuedPR} {number : Int} {pr : QueuedPR} (h : lookup queued number = some pr) : pr ∈ queued ∧ pr.number = number :=
  ⟨List.mem_reverse.mp (List.mem_of_find?_eq_some h), by simpa using List.find?_some h⟩

theorem lookup_of_mem {queued : List QueuedPR} (hdistinct : (queued.map (·.number)).Nodup) {pr : QueuedPR} (h : pr ∈ queued) :
    lookup queued pr.number = some pr := by
  cases hlookup : lookup queued pr.number with
  | none =>
    have hnone := List.find?_eq_none.mp hlookup pr (List.mem_reverse.mpr h)
    simp at hnone
  | some other =>
    obtain ⟨hother, hnumber⟩ := mem_of_lookup hlookup
    rw [List.inj_on_of_nodup_map hdistinct hother h hnumber]

theorem staleReason_eq_none_iff {stack : Stack} {targetSHA : String} {queued : List QueuedPR} : staleReason stack targetSHA queued = none ↔
    stack.base = targetSHA ∧ ∀ member ∈ stack.members, ∃ pr, lookup queued member.number = some pr ∧ pr.headSHA = member.sha := by
  have hmember : ∀ member, memberStale queued member = none ↔ ∃ pr, lookup queued member.number = some pr ∧ pr.headSHA = member.sha := by
    intro member
    unfold memberStale
    split
    · simp_all
    · rename_i pr hlookup
      simp [hlookup]
  unfold staleReason
  split
  · rename_i hne
    simp [hne]
  · rename_i heq
    simp only [ne_eq, not_not] at heq
    simp [heq, hmember]

namespace Snapshot

variable {snapshot : Snapshot} {inFlight : InFlight} {stale : Option String}

theorem mem_marked (h : (inFlight, stale) ∈ snapshot.marked) :
    inFlight ∈ snapshot.inFlight ∧ (stale = none → snapshot.stale inFlight = none) := by
  obtain ⟨i, hi, heq⟩ := List.mem_mapIdx.mp h
  have hmem := List.getElem_mem hi
  split at heq
  · split at heq
    · rw [Prod.mk.injEq] at heq
      obtain ⟨rfl, rfl⟩ := heq
      exact ⟨hmem, fun hnone => by cases hnone⟩
    · rw [Prod.mk.injEq] at heq
      obtain ⟨rfl, rfl⟩ := heq
      exact ⟨hmem, id⟩
  · rw [Prod.mk.injEq] at heq
    obtain ⟨rfl, rfl⟩ := heq
    exact ⟨hmem, id⟩

theorem exists_marked (h : inFlight ∈ snapshot.inFlight) : ∃ stale, (inFlight, stale) ∈ snapshot.marked := by
  obtain ⟨i, hi, rfl⟩ := List.getElem_of_mem h
  refine ⟨_, List.mem_mapIdx.mpr ⟨i, hi, Prod.ext ?_ rfl⟩⟩
  split
  · split <;> rfl
  · rfl

theorem marked_eq_nil : snapshot.marked = [] ↔ snapshot.inFlight = [] := List.mapIdx_eq_nil_iff

/-- Landed or stale: nothing but its record is left to do. -/
def Settled (entry : InFlight × Option String) : Prop := entry.1.landed = true ∨ entry.2.isSome = true

theorem marked_of_advancing {k : Nat} (h : snapshot.advancing = some k) :
    ∃ before after inFlight, snapshot.marked = before ++ (inFlight, none) :: after ∧ snapshot.ready inFlight = true ∧
      ∀ entry ∈ before ++ after, Settled entry := by
  obtain ⟨hk, hready, -⟩ := List.findIdx?_eq_some_iff_getElem.mp h
  have hlength : k < snapshot.marked.length := by rwa [marked, List.length_mapIdx]
  have hentry : snapshot.marked[k] = (snapshot.inFlight[k], none) := by
    simp only [ready, Bool.and_eq_true, Option.isNone_iff_eq_none] at hready
    simp [marked, h, hready.1.2]
  have hsettled : ∀ i (hi : i < snapshot.marked.length), i ≠ k → Settled snapshot.marked[i] := by
    intro i hi hne
    have hi' : i < snapshot.inFlight.length := by rwa [marked, List.length_mapIdx] at hi
    simp only [marked, List.getElem_mapIdx, h]
    split
    · exact Or.inr rfl
    · rename_i hkept
      simp only [ne_eq, hne, not_false_eq_true, decide_true, Bool.true_and, Bool.and_eq_true, Bool.not_eq_true', Option.isNone_iff_eq_none,
        not_and] at hkept
      by_cases hlanded : snapshot.inFlight[i].landed = true
      · exact Or.inl hlanded
      · exact Or.inr (Option.isSome_iff_ne_none.mpr (hkept (by simpa using hlanded)))
  refine ⟨snapshot.marked.take k, snapshot.marked.drop (k + 1), snapshot.inFlight[k], ?_, hready, ?_⟩
  · rw [← hentry, List.getElem_cons_drop, List.take_append_drop]
  · intro entry hentry
    rcases List.mem_append.mp hentry with hmem | hmem
    · obtain ⟨i, hi, rfl⟩ := List.mem_take_iff_getElem.mp hmem
      exact hsettled i (by omega) (by omega)
    · obtain ⟨i, hi, rfl⟩ := List.mem_drop_iff_getElem.mp hmem
      exact hsettled (k + 1 + i) (by omega) (by omega)

theorem not_ready_of_advancing (h : snapshot.advancing = none) (hmem : inFlight ∈ snapshot.inFlight) : snapshot.ready inFlight = false := by
  simpa using List.findIdx?_eq_none_iff.mp h inFlight hmem

end Snapshot

/-- The kinds of action that the plan's guarantees are about. -/
def Action.isAdvance : Action → Bool
  | advance _ => true
  | _ => false

/-- Only records: no commit is built or pushed and no check re-run. -/
def Action.quiet : Action → Bool
  | landed _ | abandon _ _ _ | comment _ _ => true
  | _ => false

/-- An action that ends a stack. -/
def Action.ends (stack : Stack) : Action → Prop
  | advance other | landed other | reject other _ _ _ | split other _ | abandon other _ _ => other = stack
  | _ => False

def forms (actions : List Action) : List (List Int × String) :=
  actions.filterMap fun
    | .form prs base => some (prs, base)
    | _ => none

def halves (actions : List Action) : List (List Int × String) :=
  actions.flatMap fun
    | .split stack _ => [((split stack.numbers).1, stack.base), ((split stack.numbers).2, stack.base)]
    | _ => []

section PlanTick

variable {snapshot : Snapshot} {config : Config}

variable {action : Action} {inFlight : InFlight}

theorem Snapshot.mem_comments (h : action ∈ snapshot.comments config) : ∃ pr ∈ snapshot.free, ∃ body, action = .comment pr.number body := by
  rcases List.mem_append.mp h with hrefused | hwaiting
  · obtain ⟨pr, hpr, heq⟩ := List.mem_filterMap.mp hrefused
    obtain ⟨reason, -, rfl⟩ := Option.map_eq_some_iff.mp heq
    exact ⟨pr, hpr, _, rfl⟩
  · obtain ⟨i, hi, rfl⟩ := List.mem_mapIdx.mp hwaiting
    have hmem : (snapshot.waiting config)[i] ∈ snapshot.candidates config := List.mem_of_mem_drop (List.getElem_mem hi)
    exact ⟨_, (List.mem_filter.mp hmem).1, _, rfl⟩

theorem Snapshot.not_mem_of_free {pr : QueuedPR} (h : pr ∈ snapshot.free) (hmem : inFlight ∈ snapshot.inFlight) :
    pr.number ∉ inFlight.stack.numbers := by
  intro hnumber
  obtain ⟨stale, hmarked⟩ := Snapshot.exists_marked hmem
  have hfree := (List.mem_filter.mp h).2
  simp only [Bool.and_eq_true, decide_eq_true_eq] at hfree
  exact hfree.2 (List.mem_flatMap.mpr ⟨_, hmarked, hnumber⟩)

theorem Snapshot.next_eq_nil (h : snapshot.inFlight ≠ []) : snapshot.next config = [] := by
  unfold Snapshot.next
  rw [if_neg]
  rintro hnone
  simp only [Bool.and_eq_true, Bool.not_eq_true', List.isEmpty_iff, Snapshot.resolved, List.any_eq_false, List.filter_eq_nil_iff] at hnone
  obtain ⟨entry, hentry⟩ := List.exists_mem_of_ne_nil _ (mt Snapshot.marked_eq_nil.mp h)
  have hwaits := hnone.1 entry hentry
  exact hnone.2 entry hentry (by simpa using hwaits)

theorem mem_planTick (h : action ∈ (planTick snapshot config).actions) :
    (∃ entry ∈ snapshot.marked, action ∈ snapshot.resolve entry) ∨ action ∈ snapshot.comments config ∨
      snapshot.inFlight = [] ∧ snapshot.next config ≠ [] ∧ action = .form ((snapshot.next config).map (·.number)) snapshot.targetSHA := by
  rcases List.mem_append.mp h with hmem | hform
  · exact (List.mem_append.mp hmem).imp List.mem_flatMap.mp Or.inl
  · split at hform
    · cases hform
    · rename_i hnext
      rw [List.isEmpty_iff] at hnext
      refine Or.inr (Or.inr ⟨by_contra fun hne => hnext ?_, hnext, List.mem_singleton.mp hform⟩)
      exact Snapshot.next_eq_nil hne

theorem mem_actions (h : action ∈ (planTick snapshot config).actions) :
    (∃ entry ∈ snapshot.marked, action ∈ snapshot.resolve entry) ∨ (∃ pr ∈ snapshot.free, ∃ body, action = .comment pr.number body) ∨
      snapshot.inFlight = [] ∧ action = .form ((snapshot.next config).map (·.number)) snapshot.targetSHA :=
  (mem_planTick h).imp_right fun hrest => hrest.imp Snapshot.mem_comments fun hform => ⟨hform.1, hform.2.2⟩

theorem Snapshot.mem_resolve {stale : Option String} (h : action ∈ snapshot.resolve (inFlight, stale)) :
    (action = .landed inFlight.stack ∧ inFlight.landed = true) ∨
    (∃ prs reason, action = .abandon inFlight.stack prs reason ∧ inFlight.landed = false ∧ stale = some reason) ∨
    (inFlight.landed = false ∧ stale = none ∧
      ((inFlight.checks.state = .pending ∧ action = .cancel inFlight.stack inFlight.batchmateRuns) ∨
        (inFlight.checks.state = .success ∧ action = .advance inFlight.stack) ∨
        (inFlight.checks.state ≠ .pending ∧ inFlight.checks.state ≠ .success ∧ action ∈ failureActions snapshot inFlight))) := by
  unfold Snapshot.resolve at h
  dsimp only at h
  split at h
  · rename_i hlanded
    exact Or.inl ⟨List.mem_singleton.mp h, hlanded⟩
  · rename_i hlanded
    have hlanded' : inFlight.landed = false := by simpa using hlanded
    split at h
    · exact Or.inr (Or.inl ⟨_, _, List.mem_singleton.mp h, hlanded', rfl⟩)
    · refine Or.inr (Or.inr ⟨hlanded', rfl, ?_⟩)
      split at h
      · rename_i hstate
        split at h
        · cases h
        · exact Or.inl ⟨hstate, List.mem_singleton.mp h⟩
      · rename_i hstate
        exact Or.inr (Or.inl ⟨hstate, List.mem_singleton.mp h⟩)
      · rename_i hpending hsuccess
        exact Or.inr (Or.inr ⟨hpending, hsuccess, h⟩)

theorem forms_append (a b : List Action) : forms (a ++ b) = forms a ++ forms b := List.filterMap_append

theorem halves_append (a b : List Action) : halves (a ++ b) = halves a ++ halves b := List.flatMap_append

theorem forms_comments : forms (snapshot.comments config) = [] ∧ halves (snapshot.comments config) = [] := by
  refine ⟨List.filterMap_eq_nil_iff.mpr fun action haction => ?_, List.flatMap_eq_nil_iff.mpr fun action haction => ?_⟩ <;>
    obtain ⟨pr, -, body, rfl⟩ := Snapshot.mem_comments haction <;> rfl

theorem forms_resolve (entry : InFlight × Option String) : forms (snapshot.resolve entry) = halves (snapshot.resolve entry) := by
  obtain ⟨inFlight, stale⟩ := entry
  unfold Snapshot.resolve
  dsimp only
  split
  · rfl
  · split
    · rfl
    · split
      · split <;> rfl
      · rfl
      · unfold failureActions
        dsimp only
        split
        · rfl
        · split <;> rfl

theorem forms_flatMap_resolve (entries : List (InFlight × Option String)) :
    forms (entries.flatMap snapshot.resolve) = halves (entries.flatMap snapshot.resolve) := by
  induction entries with
  | nil => rfl
  | cons entry entries ih => rw [List.flatMap_cons, forms_append, halves_append, forms_resolve, ih]

/-- A stack that is not settled and whose checks are not pending or green is retried, rejected or split on the target. -/
theorem mem_failureActions (h : action ∈ failureActions snapshot inFlight) :
    (∃ stack runIDs reason, action = .retry stack runIDs reason) ∨ (∃ number reason urls, action = .reject inFlight.stack number reason urls) ∨
      (∃ reason, action = .split inFlight.stack reason) ∨ ∃ prs, action = .form prs inFlight.stack.base := by
  unfold failureActions at h
  dsimp only at h
  split at h
  · exact Or.inl ⟨_, _, _, List.mem_singleton.mp h⟩
  · split at h
    · exact Or.inr (Or.inl ⟨_, _, _, List.mem_singleton.mp h⟩)
    · simp only [List.mem_cons, List.not_mem_nil, or_false] at h
      rcases h with hsplit | hfront | hback
      · exact Or.inr (Or.inr (Or.inl ⟨_, hsplit⟩))
      · exact Or.inr (Or.inr (Or.inr ⟨_, hfront⟩))
      · exact Or.inr (Or.inr (Or.inr ⟨_, hback⟩))

theorem base_of_stale (hlanded : inFlight.landed = false) (h : snapshot.stale inFlight = none) :
    inFlight.stack.base = snapshot.targetSHA := by
  unfold Snapshot.stale staleReason at h
  rw [hlanded, if_neg (by decide)] at h
  split at h
  · cases h
  · rename_i hbase
    exact not_not.mp hbase

theorem ready_of_advance {stack : Stack} (h : .advance stack ∈ (planTick snapshot config).actions) : ∃ inFlight ∈ snapshot.inFlight,
    inFlight.stack = stack ∧ snapshot.ready inFlight = true := by
  rcases mem_actions h with ⟨⟨inFlight, stale⟩, hentry, hresolve⟩ | ⟨pr, -, body, heq⟩ | ⟨-, heq⟩
  · obtain ⟨hmem, hstale⟩ := Snapshot.mem_marked hentry
    rcases Snapshot.mem_resolve hresolve with ⟨heq, -⟩ | ⟨_, _, heq, -⟩ | ⟨hlanded, hnone, ⟨-, heq⟩ | ⟨hstate, heq⟩ | ⟨-, -, hfailure⟩⟩
    · cases heq
    · cases heq
    · cases heq
    · rw [Action.advance.injEq] at heq
      exact ⟨inFlight, hmem, heq.symm, by simp [Snapshot.ready, hlanded, hstale hnone, hstate]⟩
    · rcases mem_failureActions hfailure with ⟨_, _, _, heq⟩ | ⟨_, _, _, heq⟩ | ⟨_, heq⟩ | ⟨_, heq⟩ <;> cases heq
  · cases heq
  · cases heq

theorem quiet_of_settled {entry : InFlight × Option String} (h : Snapshot.Settled entry) : ∀ action ∈ snapshot.resolve entry, action.quiet = true := by
  obtain ⟨inFlight, stale⟩ := entry
  intro action haction
  rcases Snapshot.mem_resolve haction with ⟨rfl, -⟩ | ⟨_, _, rfl, -⟩ | ⟨hlanded, rfl, -⟩
  · rfl
  · rfl
  · rcases h with hland | hstale
    · rw [hlanded] at hland
      cases hland
    · cases hstale

theorem actions_of_advance {stack : Stack} (h : .advance stack ∈ (planTick snapshot config).actions) :
    ∃ before after, (planTick snapshot config).actions = before ++ .advance stack :: after ∧ ∀ action ∈ before ++ after, action.quiet = true := by
  obtain ⟨ready, hready, -, hisReady⟩ := ready_of_advance h
  obtain ⟨k, hk⟩ : ∃ k, snapshot.advancing = some k := by
    cases hadvancing : snapshot.advancing with
    | none => rw [Snapshot.not_ready_of_advancing hadvancing hready] at hisReady; cases hisReady
    | some k => exact ⟨k, rfl⟩
  obtain ⟨before, after, inFlight, hmarked, hlands, hsettled⟩ := Snapshot.marked_of_advancing hk
  have hnext : snapshot.next config = [] := Snapshot.next_eq_nil fun hnil => by rw [hnil] at hready; cases hready
  have hresolve : snapshot.resolve (inFlight, none) = [.advance inFlight.stack] := by
    simp only [Snapshot.ready, Bool.and_eq_true, Bool.not_eq_true', beq_iff_eq] at hlands
    simp [Snapshot.resolve, hlands.1.1, hlands.2]
  have hactions : (planTick snapshot config).actions =
      before.flatMap snapshot.resolve ++ .advance inFlight.stack :: (after.flatMap snapshot.resolve ++ snapshot.comments config) := by
    simp [planTick, hnext, hmarked, hresolve]
  have hquiet : ∀ action ∈ before.flatMap snapshot.resolve ++ (after.flatMap snapshot.resolve ++ snapshot.comments config), action.quiet = true := by
    intro action haction
    rw [← List.append_assoc, ← List.flatMap_append, List.mem_append] at haction
    rcases haction with hentries | hcomment
    · obtain ⟨entry, hentry, hmem⟩ := List.mem_flatMap.mp hentries
      exact quiet_of_settled (hsettled entry hentry) action hmem
    · obtain ⟨pr, -, body, rfl⟩ := Snapshot.mem_comments hcomment
      rfl
  have hstack : stack = inFlight.stack := by
    rw [hactions, List.mem_append, List.mem_cons] at h
    rcases h with hbefore | heq | hafter
    · exact absurd (hquiet _ (List.mem_append_left _ hbefore)) Bool.false_ne_true
    · exact Action.advance.inj heq
    · exact absurd (hquiet _ (List.mem_append_right _ hafter)) Bool.false_ne_true
  exact ⟨_, _, hstack ▸ hactions, hquiet⟩

theorem eq_advance_or_quiet {stack : Stack} (h : .advance stack ∈ (planTick snapshot config).actions)
    (haction : action ∈ (planTick snapshot config).actions) : action = .advance stack ∨ action.quiet = true := by
  obtain ⟨before, after, hactions, hquiet⟩ := actions_of_advance h
  rw [hactions, List.mem_append, List.mem_cons] at haction
  rcases haction with hbefore | heq | hafter
  · exact Or.inr (hquiet action (List.mem_append_left _ hbefore))
  · exact Or.inl heq
  · exact Or.inr (hquiet action (List.mem_append_right _ hafter))

end PlanTick

/-- The target moves at most once per plan, to a tested stack, and nothing is built on a base that is about to be replaced. -/
structure OneMove (snapshot : Snapshot) (actions : List Action) : Prop where
  once : (actions.filter Action.isAdvance).length ≤ 1
  alone : ∀ stack, .advance stack ∈ actions → (∀ prs base, .form prs base ∉ actions) ∧ ∀ other runIDs reason, .retry other runIDs reason ∉ actions
  tested : ∀ stack, .advance stack ∈ actions → ∃ inFlight ∈ snapshot.inFlight, inFlight.stack = stack ∧ inFlight.landed = false ∧
    staleReason stack snapshot.targetSHA snapshot.queued = none ∧ inFlight.checks.state = .success
  base : ∀ prs base, .form prs base ∈ actions → base = snapshot.targetSHA
  fresh : snapshot.inFlight ≠ [] → forms actions = halves actions
  undisturbed : ∀ number body, .comment number body ∈ actions → ∀ inFlight ∈ snapshot.inFlight, (∀ action ∈ actions, ¬action.ends inFlight.stack) →
    number ∉ inFlight.stack.numbers

/-- Every plan, of every snapshot and configuration. -/
theorem plan_moves_target_once (snapshot : Snapshot) (config : Config) : OneMove snapshot (planTick snapshot config).actions where
  once := by
    by_cases hadvance : ∃ stack, .advance stack ∈ (planTick snapshot config).actions
    · obtain ⟨stack, hstack⟩ := hadvance
      obtain ⟨before, after, hactions, hquiet⟩ := actions_of_advance hstack
      have hnone : ∀ action ∈ before ++ after, ¬action.isAdvance = true := by
        intro action haction hisAdvance
        have := hquiet action haction
        cases action <;> simp_all [Action.isAdvance, Action.quiet]
      rw [hactions, List.filter_append, List.filter_cons_of_pos rfl,
        List.filter_eq_nil_iff.mpr fun action haction => hnone action (List.mem_append_left _ haction),
        List.filter_eq_nil_iff.mpr fun action haction => hnone action (List.mem_append_right _ haction)]
      exact le_refl 1
    · rw [List.filter_eq_nil_iff.mpr]
      · exact Nat.zero_le 1
      · intro action haction hisAdvance
        cases action with
        | advance stack => exact hadvance ⟨stack, haction⟩
        | _ => cases hisAdvance
  alone := by
    intro stack hstack
    constructor
    · intro prs base hform
      rcases eq_advance_or_quiet hstack hform with heq | hquiet
      · cases heq
      · cases hquiet
    · intro other runIDs reason hretry
      rcases eq_advance_or_quiet hstack hretry with heq | hquiet
      · cases heq
      · cases hquiet
  tested := by
    intro stack hstack
    obtain ⟨inFlight, hmem, rfl, hready⟩ := ready_of_advance hstack
    simp only [Snapshot.ready, Bool.and_eq_true, Bool.not_eq_true', beq_iff_eq, Option.isNone_iff_eq_none] at hready
    obtain ⟨⟨hlanded, hstale⟩, hstate⟩ := hready
    rw [Snapshot.stale, hlanded, if_neg (by decide)] at hstale
    exact ⟨inFlight, hmem, rfl, hlanded, hstale, hstate⟩
  base := by
    intro prs base hform
    rcases mem_actions hform with ⟨⟨inFlight, stale⟩, hentry, hresolve⟩ | ⟨pr, -, body, heq⟩ | ⟨-, heq⟩
    · obtain ⟨hmem, hstale⟩ := Snapshot.mem_marked hentry
      rcases Snapshot.mem_resolve hresolve with ⟨heq, -⟩ | ⟨_, _, heq, -⟩ | ⟨hlanded, hnone, ⟨-, heq⟩ | ⟨-, heq⟩ | ⟨-, -, hfailure⟩⟩
      · cases heq
      · cases heq
      · cases heq
      · cases heq
      · rcases mem_failureActions hfailure with ⟨_, _, _, heq⟩ | ⟨_, _, _, heq⟩ | ⟨_, heq⟩ | ⟨_, heq⟩
        · cases heq
        · cases heq
        · cases heq
        · rw [Action.form.injEq] at heq
          exact heq.2.trans (base_of_stale hlanded (hstale hnone))
    · cases heq
    · rw [Action.form.injEq] at heq
      exact heq.2
  fresh := by
    intro hne
    rw [planTick, Snapshot.next_eq_nil hne]
    simp only [List.isEmpty_nil, if_true, List.append_nil, forms_append, halves_append, forms_comments, forms_flatMap_resolve]
  undisturbed := by
    intro number body hcomment inFlight hmem _
    rcases mem_actions hcomment with ⟨⟨other, stale⟩, hentry, hresolve⟩ | ⟨pr, hpr, body', heq⟩ | ⟨-, heq⟩
    · rcases Snapshot.mem_resolve hresolve with ⟨heq, -⟩ | ⟨_, _, heq, -⟩ | ⟨-, -, ⟨-, heq⟩ | ⟨-, heq⟩ | ⟨-, -, hfailure⟩⟩
      · cases heq
      · cases heq
      · cases heq
      · cases heq
      · rcases mem_failureActions hfailure with ⟨_, _, _, heq⟩ | ⟨_, _, _, heq⟩ | ⟨_, heq⟩ | ⟨_, heq⟩ <;> cases heq
    · rw [Action.comment.injEq] at heq
      exact heq.1 ▸ Snapshot.not_mem_of_free hpr hmem
    · cases heq

end MergeQueue

end RunnerYard
