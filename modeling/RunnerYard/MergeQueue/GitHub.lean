import RunnerYard.Base.Ancestry
import RunnerYard.Base.Table
import RunnerYard.Interaction.Process
import RunnerYard.MergeQueue.Tick

/-!
# GitHub and the ticks of a queue

The repository as the queue sees it: commits, branches, pull requests with their labels and status comments, and the runs on each commit. A call reads it as it is at that moment or writes it; it may also fail, and a write may take effect and yet be answered with a failure. Ticks run one at a time, since the workflow has a concurrency group. A tick may stop after any of its calls, and everybody else works on the repository between them.
-/

namespace RunnerYard

namespace MergeQueue

open Interaction

/-- A pull request. `forkSHA` is the head of one from a fork; any other has the head of its branch. -/
structure PullRequest where
  number : Int
  headRef : String
  baseRef : String
  sameRepo : Bool := true
  forkSHA : String := ""
  draft : Bool := false
  isOpen : Bool := true
  labeled : Bool := false
  labeledAt : Int := 0
  labeledBy : String := ""
  files : List String := []
  deriving DecidableEq, Repr

def PullRequest.isQueued (pr : PullRequest) : Bool := pr.isOpen && pr.labeled

inductive LogEntry where
  | tick (now : Int)
  | call (op : Call) (answer : op.Ans)

/-- A commit that the queue made for a pull request, on a branch that it pushed. -/
structure Placed where
  branch : String
  number : Int
  sha : String
  deriving DecidableEq, Repr

/-- `hosted` are the commits that were ever pushed; `made` and `placed` remember for which pull request the queue made a commit, and where it pushed it. -/
structure World where
  commits : Ancestry.History String
  hosted : List String := []
  branches : String → Option String
  pulls : Table PullRequest.number
  comments : String → Int → Option Comment := fun _ _ => none
  checkRuns : String → List CheckRun := fun _ => []
  workflowRuns : String → List WorkflowRun := fun _ => []
  writers : List String := []
  made : List (Int × String) := []
  placed : List Placed := []
  log : List LogEntry := []

/-- How a call ends: as the world has it, with a failure, or with one although it took effect; a rebase with its commits or a conflict. -/
inductive Choice where
  | done
  | failed (text : String)
  | lost (text : String)
  | rebased (commits : List String)
  | conflict
  deriving DecidableEq, Repr

namespace World

def record (entry : LogEntry) (w : World) : World := { w with log := entry :: w.log }

def head (w : World) (pr : PullRequest) : Option String := if pr.sameRepo then w.branches pr.headRef else some pr.forkSHA

def setBranch (branch sha : String) (w : World) : World := { w with branches := fun b => if b = branch then some sha else w.branches b }

def host (sha : String) (w : World) : World := { w with hosted := Ancestry.below w.commits.nodes sha ++ w.hosted }

def place (branch sha : String) (w : World) : World :=
  { w with placed := (w.made.filter fun entry => w.commits.reaches entry.2 sha).map (fun entry => ⟨branch, entry.1, entry.2⟩) ++ w.placed }

def said (w : World) (login : String) (number : Int) : Comment := (w.comments login number).getD .missing

def found {α : Type} : Option α → Except Failure α
  | none => .error (.message "not found")
  | some a => .ok a

def view (w : World) (pr : PullRequest) : PR :=
  { number := pr.number, headSHA := (w.head pr).getD "", headRef := pr.headRef, baseRef := pr.baseRef, sameRepo := pr.sameRepo, draft := pr.draft
    labeledAt := 0, labeledBy := "" }

/-- A push of several branches, all or none, each leased on its expected head. -/
def leased (w : World) (updates : List BranchUpdate) : Bool := updates.all fun u => w.branches u.branch = some u.expected

def pushBranch (u : BranchUpdate) (w : World) : World := ((w.setBranch u.branch u.sha).host u.sha).place u.branch u.sha

def setComment (login : String) (number : Int) (comment : Comment) (w : World) : World :=
  { w with comments := fun l n => if l = login ∧ n = number then some comment else w.comments l n }

@[simp] theorem said_setComment_self (login : String) (number : Int) (comment : Comment) (w : World) :
    (w.setComment login number comment).said login number = comment := by
  simp [said, setComment]

theorem said_setComment_of_ne {login login' : String} {number number' : Int} (h : ¬(login' = login ∧ number' = number)) (comment : Comment) (w : World) :
    (w.setComment login number comment).said login' number' = w.said login' number' := by
  rw [said, setComment]
  simp only [if_neg h]
  rfl

def removeLabel (number : Int) (w : World) : World :=
  { w with pulls := w.pulls.map (fun pr => if pr.number = number then { pr with labeled := false } else pr) fun pr => by split <;> rfl }

/-- What a call does when it is not cut short. -/
def effect : (op : Call) → Choice → World → Option (op.Ans × World)
  | .resolveBranch branch, .done, w => some (found (w.branches branch), w)
  | .issues _, .done, w => some (.ok ((w.pulls.rows.filter PullRequest.isQueued).map (·.number)), w)
  | .pullRequest number, .done, w => some (found ((w.pulls.get number).map w.view), w)
  | .lastLabeled number _, .done, w => some (found ((w.pulls.get number).map fun pr => (pr.labeledAt, pr.labeledBy)), w)
  | .canWrite login, .done, w => some (.ok (login ∈ w.writers), w)
  | .statusComment number login, .done, w => some (.ok (w.said login number), w)
  | .upsertStatusComment number login comment, .done, w => some (.ok (), w.setComment login number comment)
  | .changedFiles number, .done, w => some (found ((w.pulls.get number).map (·.files)), w)
  | .checkRuns sha, .done, w => some (.ok (w.checkRuns sha), w)
  | .workflowRuns sha, .done, w => some (.ok (w.workflowRuns sha), w)
  | .compare ancestor descendant, .done, w => some (.ok (w.commits.reaches ancestor descendant), w)
  | .cancelRun _, .done, w => some (.ok (), w)
  | .rerunFailedJobs _, .done, w => some (.ok (), w)
  | .removeLabel number _, .done, w => some (.ok (), w.removeLabel number)
  | .planned _, .done, w => some (.ok (), w)
  | .openGit _, .done, w => some (.ok (), w)
  | .fetch branch, .done, w => some (found (w.branches branch), w)
  | .isAncestor ancestor descendant, .done, w => some (.ok (w.commits.reaches ancestor descendant), w)
  | .rebase number onto _ _, .rebased added, w =>
    some (.ok (Ancestry.History.tip onto added), { w with commits := w.commits.extend onto added, made := added.map (number, ·) ++ w.made })
  | .rebase _ _ _ _, .conflict, w => some (.error .rebaseConflict, w)
  | .pushBranches updates, .done, w =>
    some (if w.leased updates then (.ok (), updates.foldl (fun w u => w.pushBranch u) w) else (.error .leaseRejected, w))
  | .fastForward branch sha, .done, w =>
    some (if (w.branches branch).all (w.commits.reaches · sha) then (.ok (), (w.setBranch branch sha).host sha) else (.error .notFastForward, w))
  | _, _, _ => none

def outcome (op : Call) : Choice → World → Option (op.Ans × World)
  | .failed text, w => some (.error (.message text), w)
  | .lost text, w => (effect op .done w).map fun r => (.error (.message text), r.2)
  | choice, w => effect op choice w

def exec (op : Call) (choice : Choice) (w : World) : Option (op.Ans × World) :=
  (outcome op choice w).map fun r => (r.1, r.2.record (.call op r.1))

end World

def Queue.reading (q : Queue) (w : World) (number : Int) : Reading := (w.said q.botLogin number).reading

/-! ### What others do -/

/-- What others do: push, move or delete a branch, open or edit a pull request, comment, or change what has run on a commit or who may write. -/
inductive Change where
  | commit (sha : String) (parents : List String)
  | push (branch : String) (sha : Option String)
  | pull (pr : PullRequest)
  | comment (login : String) (number : Int) (comment : Comment)
  | runs (sha : String) (checks : List CheckRun) (workflows : List WorkflowRun)
  | writers (logins : List String)

/-- Only commits that GitHub has can be built on or pushed. -/
def World.change : Change → World → World
  | .commit sha parents, w =>
    if parents.all (· ∈ w.hosted) then { w with commits := w.commits.add sha parents, hosted := if w.commits.Knows sha then w.hosted else sha :: w.hosted } else w
  | .push branch none, w => { w with branches := fun b => if b = branch then none else w.branches b }
  | .push branch (some sha), w => if sha ∈ w.hosted then w.setBranch branch sha else w
  | .pull pr, w => { w with pulls := w.pulls.put pr }
  | .comment login number comment, w => w.setComment login number comment
  | .runs sha checks workflows, w =>
    { w with
      checkRuns := fun s => if s = sha then checks else w.checkRuns s
      workflowRuns := fun s => if s = sha then workflows else w.workflowRuns s }
  | .writers logins, w => { w with writers := logins }

/-- The ticks of a queue over GitHub. -/
def Queue.process (q : Queue) : Process Call.Ans World Choice Change Int (Except Failure Report) where
  exec := World.exec
  change := World.change
  start now w := ((q.tick now).run, w.record (.tick now))

abbrev State := Process.Config Call.Ans World (Except Failure Report)

abbrev Label := Process.Label Choice Change Int

/-- What GitHub and git guarantee: ids are SHAs and positive numbers; the head of a pull request is a branch other than its base and stays the same; names and addresses hold no marker. And nobody but the queue writes its status comments. -/
def Queue.Lawful (q : Queue) (c : State) : Label → Prop
  | .env (.commit sha _) => IsSHA sha
  | .env (.pull pr) => (0 < pr.number ∧ Text.FitsInt64 pr.number) ∧ (pr.sameRepo = true → pr.headRef ≠ pr.baseRef) ∧ Plain pr.baseRef ∧
    ∀ old ∈ c.world.pulls.get pr.number, old.headRef = pr.headRef ∧ old.sameRepo = pr.sameRepo
  | .env (.comment login _ _) => login ≠ q.botLogin
  | .env (.runs _ checks _) => ∀ run ∈ checks, Plain run.url
  | .move (.rebased added) => ∀ sha ∈ added, IsSHA sha
  | .start now => 0 ≤ unix now ∧ Text.FitsInt64 (unix now)
  | _ => True

end MergeQueue

end RunnerYard
