import RunnerYard.Base.Time

/-!
# Workers, leases, and the errors that pass through the controller

The data of `provider/provider.go` and the error values the controller tells apart. A Go error is a tree: `fmt.Errorf` with `%w` and the typed errors have one child, `errors.Join` has several. `errors.As` and `errors.Is` walk it in preorder, so the first match is the one found, and a class is carried by a tree as soon as one node has it.
-/

namespace RunnerYard

structure Lease where
  id : String
  runnerName : String
  runnerID : Int
  runnerScaleSetID : Int
  jitConfig : String
  deadline : Int
  idleTimeout : Int
  deriving DecidableEq, Repr

structure Worker where
  id : String := ""
  leaseID : String
  runnerName : String
  runnerID : Int := 0
  runnerScaleSetID : Int := 0
  state : String := ""
  createdAt : Int := 0
  deriving DecidableEq, Repr

/-- The error values of the controller and of the pools. `disk` is a failed write of the ledger or journal; `unreachable`, `agentRefused` and `poolFull` are `ErrUnreachable`, `AgentError` and `ErrFull`. An `errors.Join` of more than two errors nests to the right. -/
inductive Err where
  | text (message : String)
  | disk (message : String)
  | wrap (message : String) (cause : Err)
  | join (first second : Err)
  | transient (cause : Err)
  | capacity (reason : String) (retryAfter : Int) (cause : Err)
  | partialLaunch (worker : Worker) (cause : Err)
  | status (provider : String) (code : Int) (message : String)
  | launchRejected (reason : String) (cause : Err)
  | handlerFailure (cause : Err)
  | retirementDeferred
  | jobStillRunning
  | unreachable
  | agentRefused (code message : String)
  | poolFull
  deriving DecidableEq, Repr

namespace Err

/-- `errors.Join(e, other)` with a possibly nil second error. -/
def joinOption (e : Err) : Option Err → Err
  | none => e
  | some other => join e other

/-- The nodes of an error tree in the order `errors.As` and `errors.Is` visit them. -/
def nodes : Err → List Err
  | e@(text _) => [e]
  | e@(disk _) => [e]
  | e@(wrap _ cause) => e :: cause.nodes
  | e@(join first second) => e :: (first.nodes ++ second.nodes)
  | e@(transient cause) => e :: cause.nodes
  | e@(capacity _ _ cause) => e :: cause.nodes
  | e@(partialLaunch _ cause) => e :: cause.nodes
  | e@(status _ _ _) => [e]
  | e@(launchRejected _ cause) => e :: cause.nodes
  | e@(handlerFailure cause) => e :: cause.nodes
  | e@retirementDeferred => [e]
  | e@jobStillRunning => [e]
  | e@unreachable => [e]
  | e@(agentRefused _ _) => [e]
  | e@poolFull => [e]

/-! ### The classes `errors.As` looks for, one node at a time -/

def transient? : Err → Bool
  | transient _ => true
  | _ => false

def capacity? : Err → Option (String × Int)
  | capacity reason retryAfter _ => some (reason, retryAfter)
  | _ => none

def partialLaunch? : Err → Option Worker
  | partialLaunch worker _ => some worker
  | _ => none

def status? : Err → Option (String × Int)
  | status provider code _ => some (provider, code)
  | _ => none

def launchRejected? : Err → Option String
  | launchRejected reason _ => some reason
  | _ => none

def handlerFailure? : Err → Bool
  | handlerFailure _ => true
  | _ => false

def isTransient (e : Err) : Bool := e.nodes.any transient?

/-- The first `provider.CapacityError` of the tree. -/
def asCapacity (e : Err) : Option (String × Int) := e.nodes.findSome? capacity?

def isCapacity (e : Err) : Bool := e.asCapacity.isSome

/-- The worker of the first `provider.PartialLaunchError` of the tree. -/
def asPartialLaunch (e : Err) : Option Worker := e.nodes.findSome? partialLaunch?

/-- The provider and status code of the first `retry.StatusError` of the tree. -/
def asStatus (e : Err) : Option (String × Int) := e.nodes.findSome? status?

/-- The reason of the first `launchRejectedError` of the tree. -/
def asLaunchRejected (e : Err) : Option String := e.nodes.findSome? launchRejected?

/-- `isHandlerFailure` of `scaler.go`. -/
def isHandlerFailure (e : Err) : Bool := e.nodes.any handlerFailure?

/-- `errors.Is(e, errRetirementDeferred)`. -/
def isRetirementDeferred (e : Err) : Bool := e.nodes.any (· = retirementDeferred)

/-- `errors.Is(e, scaleset.JobStillRunningError)`. -/
def isJobStillRunning (e : Err) : Bool := e.nodes.any (· = jobStillRunning)

/-- `errors.Is(e, ErrUnreachable)`. -/
def isUnreachable (e : Err) : Bool := e.nodes.any (· = unreachable)

def agentRefused? : Err → Option String
  | agentRefused code _ => some code
  | _ => none

/-- The code of the first `AgentError` of the tree. -/
def asAgentRefused (e : Err) : Option String := e.nodes.findSome? agentRefused?

/-- `IsAgentRefusal` of `pool.go`. -/
def isAgentRefusal (e : Err) (code : String) : Bool :=
  match e.asAgentRefused with
  | none => false
  | some refusal => code = "" || refusal = code

/-- `refusalCode` of `compute.go`. -/
def refusalCode (e : Err) : String := e.asAgentRefused.getD ""

/-- The tree carries a `retry.StatusError` of 401 or 403. -/
def isUnauthorized (e : Err) : Bool :=
  e.nodes.any fun node => match node with
    | status _ code _ => code == 401 || code == 403
    | _ => false

/-- `failClosed` of `scaler.go`. -/
def failClosed : Option Err → Option Err
  | none => none
  | some e => if e.isHandlerFailure then some e else some (handlerFailure e)

/-! ### How a class passes through the constructors -/

section Classes

variable (message : String) (cause first second : Err)

@[simp] theorem isTransient_wrap : (wrap message cause).isTransient = cause.isTransient := rfl

@[simp] theorem asLaunchRejected_wrap : (wrap message cause).asLaunchRejected = cause.asLaunchRejected := rfl

@[simp] theorem asLaunchRejected_join :
    (join first second).asLaunchRejected = (first.asLaunchRejected <|> second.asLaunchRejected) := by
  have hnodes : (join first second).asLaunchRejected = first.asLaunchRejected.or second.asLaunchRejected := List.findSome?_append
  rw [hnodes, Option.or_eq_orElse]
  rfl

@[simp] theorem asLaunchRejected_retirementDeferred : retirementDeferred.asLaunchRejected = none := rfl

theorem isHandlerFailure_failClosed {result : Option Err} {e : Err} (h : failClosed result = some e) :
    e.isHandlerFailure = true := by
  cases result with
  | none => simp [failClosed] at h
  | some inner =>
    by_cases hinner : inner.isHandlerFailure
    · simp only [failClosed, hinner, if_true, Option.some.injEq] at h
      exact h ▸ hinner
    · simp only [failClosed, hinner, Bool.false_eq_true, if_false, Option.some.injEq] at h
      subst h
      rfl

end Classes

end Err

end RunnerYard
