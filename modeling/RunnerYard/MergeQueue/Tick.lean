import RunnerYard.Interaction.Fallible
import RunnerYard.MergeQueue.Plan
import RunnerYard.MergeQueue.RoundTrip
import Mathlib.Data.List.Sort

/-!
# A tick

`LoadSnapshot` of `snapshot.go` and `Apply` of `apply.go` as programs over the calls that a tick makes to GitHub and to its clone. A call that fails ends the tick unless the code handles the failure. The queue keeps nothing from one tick to the next, so all that a later tick knows is what this one has written.

A tick that formed a stack goes on to cancel the runs of the members below the top for `SettleWait`; with a wait of zero it leaves that to later ticks, and so does this model.
-/

namespace RunnerYard

namespace MergeQueue

open Interaction

/-! ### Comments as GitHub keeps them -/

structure Reading where
  stack : Option Stack := none
  owns : List Own := []
  landed : Option Landed := none
  deriving DecidableEq, Repr

def read (body : String) : Reading := { stack := parseStack body, owns := parseOwns body, landed := parseLanded body }

structure Comment where
  body : String
  reading : Reading
  reads : reading = read body

namespace Comment

def ofText (body : String) : Comment := { body, reading := read body, reads := rfl }

def missing : Comment := { body := "", reading := {}, reads := by decide }

theorem ext_body {c c' : Comment} (h : c.body = c'.body) : c = c' := by
  obtain ⟨body, reading, hreads⟩ := c
  obtain ⟨body', reading', hreads'⟩ := c'
  obtain rfl : body = body' := h
  rw [Comment.mk.injEq]
  exact ⟨rfl, hreads.trans hreads'.symm⟩

end Comment

namespace StatusComment

instance (text : String) : Decidable (Plain text) := inferInstanceAs (Decidable (¬ _))

instance (stack : Stack) : Decidable stack.Valid :=
  decidable_of_iff (IsSHA stack.base ∧ stack.members ≠ [] ∧
    (∀ member ∈ stack.members, 0 < member.number ∧ Text.FitsInt64 member.number ∧ IsSHA member.sha) ∧ stack.numbers.Nodup ∧
    (stack.retry = 0 ∨ stack.retry = 1) ∧ 0 ≤ unix stack.atTime ∧ Text.FitsInt64 (unix stack.atTime))
    ⟨fun h => ⟨h.1, h.2.1, h.2.2.1, h.2.2.2.1, h.2.2.2.2.1, h.2.2.2.2.2⟩,
      fun h => ⟨h.base, h.nonempty, h.members, h.distinct, h.retry, h.atTime⟩⟩

instance : (comment : StatusComment) → Decidable comment.Valid
  | waiting _ _ _ => inferInstanceAs (Decidable (∀ _ ∈ _, _))
  | ineligible _ _ _ => inferInstanceAs (Decidable (_ ∧ _ ∧ _))
  | member _ _ _ => inferInstanceAs (Decidable (_ ∧ _ ∧ _))
  | landed _ _ => inferInstanceAs (Decidable (_ ∧ _))
  | rejected _ _ _ _ => inferInstanceAs (Decidable (_ ∧ _ ∧ _ ∧ _))
  | requeued _ _ => inferInstanceAs (Decidable (_ ∧ _))

def said (comment : StatusComment) : Reading :=
  { stack := comment.stack?.map Stack.seconds, owns := comment.owns.take maxOwns, landed := comment.landed? }

theorem said_eq_read {comment : StatusComment} (h : comment.Valid) : comment.said = read comment.body := by
  obtain ⟨hstack, howns, hlanded⟩ := parse_body h
  rw [said, read, hstack, howns, hlanded]

/-- The comment under which GitHub keeps it. A text that the round trip does not cover is read. -/
def comment (c : StatusComment) : Comment where
  body := c.body
  reading := if c.Valid then c.said else read c.body
  reads := by
    split
    · rename_i h
      exact said_eq_read h
    · rfl

theorem reading_comment {c : StatusComment} (h : c.Valid) : c.comment.reading = c.said := if_pos h

theorem ofText_body (c : StatusComment) : Comment.ofText c.body = c.comment := Comment.ext_body rfl

end StatusComment

/-! ### Calls -/

structure WorkflowRun where
  id : Int
  event : String
  status : String
  conclusion : String
  suiteID : Int
  deriving DecidableEq, Repr

structure BranchUpdate where
  branch : String
  sha : String
  expected : String
  deriving DecidableEq, Repr

inductive Failure where
  | message (text : String)
  | rebaseConflict
  | leaseRejected
  | notFastForward
  deriving DecidableEq, Repr

/-- The calls of a tick. `QueuedPRs` is `issues`, `pullRequest` and `lastLabeled`; `compare` is `IsAncestor`; `openGit` clones once per tick. A rebase says for which pull request it is, and `planned` marks where the plan is made. -/
inductive Call where
  | resolveBranch (branch : String)
  | issues (label : String)
  | pullRequest (number : Int)
  | lastLabeled (number : Int) (label : String)
  | canWrite (login : String)
  | statusComment (number : Int) (botLogin : String)
  | upsertStatusComment (number : Int) (botLogin : String) (comment : Comment)
  | changedFiles (number : Int)
  | checkRuns (sha : String)
  | workflowRuns (sha : String)
  | compare (ancestor descendant : String)
  | cancelRun (id : Int)
  | rerunFailedJobs (id : Int)
  | removeLabel (number : Int) (label : String)
  | planned (snapshot : Snapshot)
  | openGit (target : String)
  | fetch (branch : String)
  | isAncestor (ancestor descendant : String)
  | rebase (number : Int) (onto upstream head : String)
  | pushBranches (updates : List BranchUpdate)
  | fastForward (branch sha : String)

namespace Call

@[reducible] def Val : Call → Type
  | resolveBranch _ => String
  | issues _ => List Int
  | pullRequest _ => PR
  | lastLabeled _ _ => Int × String
  | canWrite _ => Bool
  | statusComment _ _ => Comment
  | upsertStatusComment _ _ _ => Unit
  | changedFiles _ => List String
  | checkRuns _ => List CheckRun
  | workflowRuns _ => List WorkflowRun
  | compare _ _ => Bool
  | cancelRun _ => Unit
  | rerunFailedJobs _ => Unit
  | removeLabel _ _ => Unit
  | planned _ => Unit
  | openGit _ => Unit
  | fetch _ => String
  | isAncestor _ _ => Bool
  | rebase _ _ _ _ => String
  | pushBranches _ => Unit
  | fastForward _ _ => Unit

@[reducible] def Ans (op : Call) : Type := Except Failure op.Val

end Call

abbrev Tick := Try Call.Ans Failure

def call (op : Call) : Tick op.Val := ExceptT.mk (Prog.perform op)

/-- A call whose failure the code looks at. -/
def attempt (op : Call) : Tick (Except Failure op.Val) := ExceptT.lift (Prog.perform op)

/-- The configuration and the bot account of a queue; `glob` is `filepath.Match`. -/
structure Queue where
  config : Config
  botLogin : String
  glob : String → String → Bool

instance : Inhabited QueuedPR :=
  ⟨{ number := 0, headSHA := "", headRef := "", baseRef := "", sameRepo := false, draft := false, labeledAt := 0, labeledBy := "" }⟩

/-! ### The snapshot -/

/-- The order of `sortFIFO`: by the time the label was added, then by number; those without a time go last. -/
def earlier (a b : PR) : Prop :=
  if decide (a.labeledAt = 0) ≠ decide (b.labeledAt = 0) then b.labeledAt = 0
  else if a.labeledAt ≠ b.labeledAt then a.labeledAt ≤ b.labeledAt
  else a.number ≤ b.number

instance (a b : PR) : Decidable (earlier a b) := inferInstanceAs (Decidable (ite _ _ _))

def sortFIFO (prs : List PR) : List PR := prs.insertionSort earlier

def activeRunStatuses : List String := ["queued", "in_progress", "waiting", "requested", "pending"]

def rerunnableConclusions : List String := ["failure", "timed_out", "cancelled"]

def activeRuns (runs : List WorkflowRun) : List Int :=
  (runs.filter fun run => run.event = "pull_request" && run.status ∈ activeRunStatuses).map (·.id)

def needsFiles (checks : List RequiredCheck) : Bool := checks.any fun check => !check.paths.isEmpty

def batchmateRuns (stack : Stack) : Tick (List Int) :=
  stack.members.dropLast.foldlM (fun ids member => do
    let runs ← call (.workflowRuns member.sha)
    pure (ids ++ activeRuns runs)) []

structure Loading where
  canWrite : List (String × Bool) := []
  queued : List QueuedPR := []
  marked : List Stack := []

def labelerCanWrite (known : List (String × Bool)) (login : String) : Tick (Bool × List (String × Bool)) :=
  if login = "" then pure (false, known)
  else match known.lookup login with
    | some allowed => pure (allowed, known)
    | none => do
      let allowed ← call (.canWrite login)
      pure (allowed, (login, allowed) :: known)

namespace Queue

variable (q : Queue)

def queuedPRs : Tick (List PR) := do
  let numbers ← call (.issues q.config.label)
  numbers.foldlM (fun prs number => do
    let pr ← call (.pullRequest number)
    let labeled ← call (.lastLabeled number q.config.label)
    pure (prs ++ [{ pr with labeledAt := labeled.1, labeledBy := labeled.2 }])) []

/-- One pull request of the queue. The stack marker is trusted only on its own top pull request. -/
def loadPR (loading : Loading) (pr : PR) : Tick Loading := do
  let permission ← labelerCanWrite loading.canWrite pr.labeledBy
  if q.botLogin = "" then
    pure { loading with canWrite := permission.2, queued := loading.queued ++ [{ pr with labelerCanWrite := permission.1 }] }
  else do
    let comment ← call (.statusComment pr.number q.botLogin)
    pure {
      canWrite := permission.2
      queued := loading.queued ++ [{ pr with
        labelerCanWrite := permission.1
        owns := comment.reading.owns
        landed := comment.reading.landed.any (·.head = pr.headSHA) }]
      marked := loading.marked ++ (comment.reading.stack.filter (·.top.number = pr.number)).toList }

/-- The files that a stack changes, which matter only to checks with paths. -/
def changedFiles (stack : Stack) : Tick (List String) :=
  if needsFiles q.config.requiredChecks then
    stack.numbers.foldlM (fun files number => do
      let changed ← call (.changedFiles number)
      pure (files ++ changed)) []
  else pure []

def loadChecks (now : Int) (stack : Stack) : Tick InFlight := do
  let files ← q.changedFiles stack
  let runs ← call (.checkRuns stack.top.sha)
  let checks := evaluate q.glob q.config.requiredChecks files runs (now - stack.atTime) q.config.checkTimeout
    (if 0 < stack.retry then stack.atTime else 0)
  match checks.state with
  | .failure =>
    if 0 < stack.retry || checks.suites.isEmpty then pure { stack, checks }
    else do
      let workflowRuns ← call (.workflowRuns stack.top.sha)
      pure { stack, checks, rerunIDs := (workflowRuns.filter fun run =>
        run.status = "completed" && run.conclusion ∈ rerunnableConclusions && run.suiteID ∈ checks.suites).map (·.id) }
  | .pending => do
    let runs ← batchmateRuns stack
    pure { stack, checks, batchmateRuns := runs }
  | _ => pure { stack, checks }

def loadInFlight (now : Int) (targetSHA : String) (queued : List QueuedPR) (stack : Stack) : Tick InFlight :=
  if stack.base ≠ targetSHA then
    if stack.top.sha = targetSHA then pure { stack, landed := true }
    else do
      let landed ← call (.compare stack.top.sha targetSHA)
      pure { stack, landed }
  else if (staleReason stack targetSHA queued).isSome then pure { stack }
  else q.loadChecks now stack

/-- The snapshot of the labeled pull requests that GitHub has listed. -/
def loadQueue (now : Int) (targetSHA : String) (prs : List PR) : Tick Snapshot := do
  let loading ← (sortFIFO prs).foldlM q.loadPR {}
  let inFlight ← loading.marked.foldlM (fun inFlight stack => do
    let next ← q.loadInFlight now targetSHA loading.queued stack
    pure (inFlight ++ [next])) []
  pure { now, targetSHA, queued := loading.queued, inFlight }

def loadSnapshot (now : Int) : Tick Snapshot := do
  let targetSHA ← call (.resolveBranch q.config.target)
  let prs ← q.queuedPRs
  q.loadQueue now targetSHA prs

end Queue

/-! ### The steps of a plan -/

/-- What a tick did. `deferred` are the stacks not formed or landed because a branch or the target moved. -/
structure Report where
  formed : List (List Int) := []
  landed : List (List Int) := []
  retried : List (List Int) := []
  split : List (List Int) := []
  abandoned : List (List Int) := []
  rejected : List Int := []
  deferred : List (List Int) := []
  idle : Bool := false
  deriving DecidableEq, Repr

instance : Append Report where
  append r r' := {
    formed := r.formed ++ r'.formed
    landed := r.landed ++ r'.landed
    retried := r.retried ++ r'.retried
    split := r.split ++ r'.split
    abandoned := r.abandoned ++ r'.abandoned
    rejected := r.rejected ++ r'.rejected
    deferred := r.deferred ++ r'.deferred
    idle := r.idle || r'.idle }

/-- The record, other than the current one, that is still worth keeping. -/
def keepOwns (owns : List Own) (current : Own) : List Own := (owns.find? (· ≠ current)).toList

def answeredYes : Except Failure Bool → Bool
  | .ok answer => answer
  | .error _ => false

structure Building where
  tip : String
  members : List Member := []
  updates : List BranchUpdate := []
  keeps : List (List Own) := []
  deriving DecidableEq, Repr

inductive Built where
  | postponed
  | conflict (number : Int)
  | stacked (built : Building)
  deriving DecidableEq, Repr

/-- The commit below a pull request's own, from the first record that still describes the branch, else the target. -/
def upstream (headSHA base : String) : List Own → Tick (String × List Own)
  | [] => pure (base, [])
  | own :: rest => do
    let headOK ← attempt (.isAncestor own.head headSHA)
    if answeredYes headOK then do
      let upstreamOK ← attempt (.isAncestor own.upstream own.head)
      if answeredYes upstreamOK then pure (own.upstream, [own]) else upstream headSHA base rest
    else upstream headSHA base rest

namespace Queue

variable (q : Queue) (snapshot : Snapshot)

def comment (number : Int) (body : Comment) : Tick Unit := call (.upsertStatusComment number q.botLogin body)

def queued (snapshot : Snapshot) (number : Int) : QueuedPR := (lookup snapshot.queued number).getD default

def cancel (runIDs : List Int) : Tick Unit :=
  runIDs.forM fun id => do
    let _ ← attempt (.cancelRun id)
    pure ()

def cancelPullRequestRuns (sha : String) : Tick Unit := do
  match ← attempt (.workflowRuns sha) with
  | .error _ => pure ()
  | .ok runs => cancel (activeRuns runs)

def reject (number : Int) (reason : String) (urls : List String) : Tick Report := do
  call (.removeLabel number q.config.label)
  q.comment number (StatusComment.rejected reason q.config.label urls (queued snapshot number).owns).comment
  pure { rejected := [number] }

def postpone (prs : List Int) : Tick Report := pure { deferred := [prs] }

/-- Rebase the pull requests on top of each other. -/
def stackUp (base : String) : List Int → Building → Tick Built
  | [], building => pure (.stacked building)
  | number :: rest, building => do
    let pr := queued snapshot number
    let head ← call (.fetch pr.headRef)
    if head ≠ pr.headSHA then pure .postponed
    else do
      let found ← upstream pr.headSHA base pr.owns
      match ← attempt (.rebase number building.tip found.1 head) with
      | .error .rebaseConflict => pure (.conflict number)
      | .error failure => throw failure
      | .ok rebased =>
        stackUp base rest {
          tip := rebased
          members := building.members ++ [{ number, sha := rebased }]
          updates := building.updates ++ [{ branch := pr.headRef, sha := rebased, expected := pr.headSHA }]
          keeps := building.keeps ++ [found.2] }

def commentStack (stack : Stack) (keep : Nat → List Own) : Tick Unit :=
  stack.members.zipIdx.forM fun entry => q.comment entry.1.number (StatusComment.member stack entry.2 (keep entry.2)).comment

/-- Comments first: if the push never happens, each comment still holds the record of its branch as it is. -/
def publish (base : String) (prs : List Int) (building : Building) : Tick Report := do
  q.commentStack { base, members := building.members, atTime := snapshot.now } fun i => building.keeps.getD i []
  match ← attempt (.pushBranches building.updates) with
  | .error .leaseRejected => postpone prs
  | .error failure => throw failure
  | .ok _ => pure { formed := [prs] }

/-- `form`, with what it does about a conflict. -/
def formOr (conflict : List Int → String → Int → Tick Report) (prs : List Int) (base : String) : Tick Report := do
  call (.openGit q.config.target)
  let target ← call (.fetch q.config.target)
  if target ≠ base then postpone prs
  else do
    match ← stackUp snapshot base prs { tip := base } with
    | .postponed => postpone prs
    | .conflict number => conflict prs base number
    | .stacked building => q.publish snapshot base prs building

/-- `conflict`: one pull request is rejected, a group is split at once. The number bounds how often a group can be split. -/
def conflict : Nat → List Int → String → Int → Tick Report
  | 0, _, _, culprit => q.reject snapshot culprit "it does not rebase cleanly onto the target" []
  | fuel + 1, prs, base, culprit =>
    if prs.length = 1 then q.reject snapshot culprit "it does not rebase cleanly onto the target" []
    else do
      let front ← q.formOr snapshot (conflict fuel) (split prs).1 base
      let back ← q.formOr snapshot (conflict fuel) (split prs).2 base
      pure ({ split := [prs] } ++ front ++ back)

theorem split_spec {prs : List Int} (h : 2 ≤ prs.length) : (split prs).1 ++ (split prs).2 = prs ∧
    (0 < (split prs).1.length ∧ (split prs).1.length < prs.length) ∧ 0 < (split prs).2.length ∧ (split prs).2.length < prs.length := by
  rw [split, if_neg (by omega)]
  simp only [List.take_append_drop, List.length_take, List.length_drop, true_and]
  omega

/-- The bound of `conflict` is never reached. -/
theorem conflict_fuel {fuel fuel' : Nat} {prs : List Int} (hprs : 0 < prs.length) (h : prs.length ≤ fuel) (h' : prs.length ≤ fuel') :
    q.conflict snapshot fuel prs = q.conflict snapshot fuel' prs := by
  induction fuel generalizing fuel' prs with
  | zero => omega
  | succ fuel ih =>
    cases fuel' with
    | zero => omega
    | succ fuel' =>
      funext base culprit
      rw [conflict, conflict]
      split
      · rfl
      · rename_i hlength
        have htwo : 2 ≤ prs.length := by omega
        obtain ⟨-, hfront, hback⟩ := split_spec htwo
        have hfront' : q.conflict snapshot fuel (split prs).1 = q.conflict snapshot fuel' (split prs).1 := ih hfront.1 (by omega) (by omega)
        have hback' : q.conflict snapshot fuel (split prs).2 = q.conflict snapshot fuel' (split prs).2 := ih hback.1 (by omega) (by omega)
        rw [formOr, formOr, formOr, formOr, hfront', hback']

def form (prs : List Int) (base : String) : Tick Report := q.formOr snapshot (q.conflict snapshot prs.length) prs base

def landed (stack : Stack) : Tick Report := do
  stack.members.zipIdx.forM fun entry => q.comment entry.1.number (StatusComment.landed stack entry.2).comment
  pure { landed := [stack.numbers] }

def advance (stack : Stack) : Tick Report := do
  call (.openGit q.config.target)
  let head ← call (.fetch (queued snapshot stack.top.number).headRef)
  if head ≠ stack.top.sha then postpone stack.numbers
  else do
    match ← attempt (.fastForward q.config.target stack.top.sha) with
    | .error .notFastForward => postpone stack.numbers
    | .error failure => throw failure
    | .ok _ => q.landed stack

def retry (stack : Stack) (runIDs : List Int) : Tick Report := do
  runIDs.forM fun id => do
    let _ ← attempt (.rerunFailedJobs id)
    pure ()
  q.commentStack stack fun i => keepOwns (queued snapshot (stack.members.getD i default).number).owns (stackOwn stack i)
  pure { retried := [stack.numbers] }

def abandon (stack : Stack) (prs : List Int) (reason : String) : Tick Report := do
  cancelPullRequestRuns stack.top.sha
  prs.forM fun number =>
    match lookup snapshot.queued number with
    | none => pure ()
    | some pr => q.comment number (StatusComment.requeued reason pr.owns).comment
  pure { abandoned := [stack.numbers] }

def apply : Action → Tick Report
  | .comment number body => do
    q.comment number (.ofText body)
    pure {}
  | .cancel _ runIDs => do
    cancel runIDs
    pure {}
  | .form prs base => q.form snapshot prs base
  | .advance stack => q.advance snapshot stack
  | .landed stack => q.landed stack
  | .retry stack runIDs _ => q.retry snapshot stack runIDs
  | .reject _ number reason urls => q.reject snapshot number reason urls
  | .split stack _ => pure { split := [stack.numbers] }
  | .abandon stack prs reason => q.abandon snapshot stack prs reason

/-- `Apply`: the steps of a plan one after the other. -/
def applyPlan (plan : Plan) : Tick Report :=
  plan.actions.foldlM (fun report action => do
    let done ← q.apply snapshot action
    pure (report ++ done)) { idle := plan.idle }

/-- `Tick`, of a queue that writes. -/
def tick (now : Int) : Tick Report :=
  if q.botLogin = "" then throw (.message "a tick that writes needs the queue's bot login, to recognize its own status comments")
  else do
    let snapshot ← q.loadSnapshot now
    call (.planned snapshot)
    q.applyPlan snapshot (planTick snapshot q.config)

end Queue

end MergeQueue

end RunnerYard
