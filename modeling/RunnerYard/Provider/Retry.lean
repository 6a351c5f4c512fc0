import RunnerYard.Provider.Error

/-!
# Retries

The rest of `retry.go`: which failures of a request are transient, and how often a request that fails so is repeated. `TransportError` has the errors of `net/http`, `net` and `context` that `ClassifyRequestError` tells apart; to the rest of the controller, which looks for its own classes only, they are texts and wrappers.
-/

namespace RunnerYard

namespace Provider

/-- An error tree of the standard library. `timeout` is one of `net/http` or `net` themselves, which matches `context.DeadlineExceeded` although no context has ended; `net` is any other `net.Error`, and `other` an error of the controller's own. -/
inductive TransportError where
  | canceled
  | deadlineExceeded
  | timeout (message : String)
  | url (op address : String) (cause : TransportError)
  | net (message : String) (cause : TransportError)
  | wrap (message : String) (cause : TransportError)
  | join (first second : TransportError)
  | eof
  | unexpectedEOF
  | connReset
  | connRefused
  | other (e : Err)
  deriving DecidableEq, Repr

namespace TransportError

def toErr : TransportError → Err
  | canceled => .text "context canceled"
  | deadlineExceeded => .text "context deadline exceeded"
  | timeout message => .text message
  | url op address cause => .wrap (op ++ " \"" ++ address ++ "\"") cause.toErr
  | net message cause => .wrap message cause.toErr
  | wrap message cause => .wrap message cause.toErr
  | join first second => .join first.toErr second.toErr
  | eof => .text "EOF"
  | unexpectedEOF => .text "unexpected EOF"
  | connReset => .text "connection reset by peer"
  | connRefused => .text "connection refused"
  | other e => e

/-- The nodes in the order in which `errors.Is` and `errors.As` visit them. -/
def nodes : TransportError → List TransportError
  | e@(url _ _ cause) => e :: cause.nodes
  | e@(net _ cause) => e :: cause.nodes
  | e@(wrap _ cause) => e :: cause.nodes
  | e@(join first second) => e :: (first.nodes ++ second.nodes)
  | e => [e]

/-- `errors.Is(e, context.Canceled)`. -/
def isCanceled (e : TransportError) : Bool := e.nodes.any (· = canceled)

/-- `errors.Is(e, context.DeadlineExceeded)`. -/
def isDeadlineExceeded (e : TransportError) : Bool :=
  e.nodes.any fun node => match node with
    | deadlineExceeded | timeout _ => true
    | _ => false

/-- The cause of the first `url.Error`. -/
def asURL (e : TransportError) : Option TransportError :=
  e.nodes.findSome? fun node => match node with
    | url _ _ cause => some cause
    | _ => none

/-- Whether `errors.As` finds a `net.Error`. -/
def isNet (e : TransportError) : Bool :=
  e.nodes.any fun node => match node with
    | deadlineExceeded | timeout _ | url _ _ _ | net _ _ | connReset | connRefused => true
    | _ => false

/-- The failure comes from the end of a context: `http.Client.Do` then reports the context's own error. -/
def fromContext (e : TransportError) : Bool := e.nodes.any fun node => node = canceled || node = deadlineExceeded

end TransportError

def transient (e : Err) : Err := if e.isTransient then e else .transient e

/-- `ClassifyRequestError`, of an error that is not nil. -/
def classifyRequestError (e : TransportError) : Err :=
  if e.isCanceled || e.isDeadlineExceeded then e.toErr
  else match e.asURL with
    | some cause => if cause.isCanceled then e.toErr else transient e.toErr
    | none =>
      if e.isNet || e.nodes.any (· = .eof) || e.nodes.any (· = .unexpectedEOF) || e.nodes.any (· = .connReset) || e.nodes.any (· = .connRefused) then
        transient e.toErr
      else e.toErr

theorem isTransient_transient (e : Err) : (transient e).isTransient = true := by
  unfold transient
  split
  · assumption
  · rfl

/-- The cause does not match the errors of a context, or is already transient. -/
def TransportError.Recoverable (cause : TransportError) : Prop :=
  (cause.isCanceled = false ∧ cause.isDeadlineExceeded = false) ∨ cause.toErr.isTransient = true

instance (cause : TransportError) : Decidable cause.Recoverable := inferInstanceAs (Decidable (_ ∨ _))

theorem isTransient_classify_url (op address : String) (cause : TransportError) :
    (classifyRequestError (.url op address cause)).isTransient = true ↔ cause.Recoverable := by
  have hcanceled : (TransportError.url op address cause).isCanceled = cause.isCanceled := by
    simp [TransportError.isCanceled, TransportError.nodes]
  have hdeadline : (TransportError.url op address cause).isDeadlineExceeded = cause.isDeadlineExceeded := by
    simp [TransportError.isDeadlineExceeded, TransportError.nodes]
  have hurl : (TransportError.url op address cause).asURL = some cause := by
    simp [TransportError.asURL, TransportError.nodes]
  have htoErr : (TransportError.url op address cause).toErr.isTransient = cause.toErr.isTransient := Err.isTransient_wrap _ _
  rw [classifyRequestError, hcanceled, hdeadline, hurl, TransportError.Recoverable]
  by_cases hmatches : cause.isCanceled = true ∨ cause.isDeadlineExceeded = true
  · rw [if_pos (by simpa using hmatches), htoErr]
    constructor
    · exact Or.inr
    · rintro (⟨hnot, hnot'⟩ | htransient)
      · simp [hnot, hnot'] at hmatches
      · exact htransient
  · rw [not_or, Bool.not_eq_true, Bool.not_eq_true] at hmatches
    simp only [hmatches.1, hmatches.2, Bool.or_false, Bool.false_eq_true, if_false, isTransient_transient, and_self, true_or]

/-! ### Repeating a request -/

def defaultAttempts : Nat := 5

/-- The attempts of `withDefaults`. -/
def effectiveAttempts (attempts : Int) : Nat := if attempts < 1 then defaultAttempts else attempts.toNat

/-- What an attempt meets: the limiter, the end of the operation, and the pause, which like the limiter fails only with the context. -/
structure Attempt (α : Type) where
  wait : Option Err := none
  operation : Except Err α
  sleep : Option Err := none

/-- `Do` from the given attempt on, with how many operations it has run. -/
def doFrom {α : Type} (attempts : Nat → Attempt α) : (remaining attempt : Nat) → Nat × Except Err α
  | 0, attempt => (attempt - 1, (attempts (attempt - 1)).operation)
  | remaining + 1, attempt =>
    match (attempts attempt).wait with
    | some ended => (attempt - 1, .error ended)
    | none =>
      match (attempts attempt).operation with
      | .ok result => (attempt, .ok result)
      | .error last =>
        if !last.isTransient || remaining = 0 then (attempt, .error last)
        else match (attempts attempt).sleep with
          | some ended => (attempt, .error (.join last ended))
          | none => doFrom attempts remaining (attempt + 1)

/-- `Do`. -/
def retryDo {α : Type} (policyAttempts : Int) (attempts : Nat → Attempt α) : Nat × Except Err α := doFrom attempts (effectiveAttempts policyAttempts) 1

theorem effectiveAttempts_pos (attempts : Int) : 0 < effectiveAttempts attempts := by
  unfold effectiveAttempts defaultAttempts
  split <;> omega

theorem doFrom_transient {α : Type} {attempts : Nat → Attempt α} {failure : Nat → Err} (hwait : ∀ n, (attempts n).wait = none) (hsleep : ∀ n, (attempts n).sleep = none)
    (hoperation : ∀ n, (attempts n).operation = .error (failure n)) (htransient : ∀ n, (failure n).isTransient = true) {remaining : Nat} (hremaining : 0 < remaining)
    (attempt : Nat) : doFrom attempts remaining attempt = (attempt + remaining - 1, .error (failure (attempt + remaining - 1))) := by
  induction remaining generalizing attempt with
  | zero => omega
  | succ remaining ih =>
    rw [doFrom, hwait, hoperation]
    simp only [htransient, Bool.not_true, Bool.false_or, hsleep]
    rcases Nat.eq_zero_or_pos remaining with rfl | hpos
    · simp
    · rw [if_neg (by simpa using hpos.ne'), ih hpos]
      rw [show attempt + 1 + remaining - 1 = attempt + (remaining + 1) - 1 by omega]

theorem doFrom_permanent {α : Type} {attempts : Nat → Attempt α} {failure : Err} {remaining attempt : Nat} (hremaining : 0 < remaining)
    (hwait : (attempts attempt).wait = none) (hoperation : (attempts attempt).operation = .error failure) (hpermanent : failure.isTransient = false) :
    doFrom attempts remaining attempt = (attempt, .error failure) := by
  obtain ⟨remaining, rfl⟩ := Nat.exists_eq_succ_of_ne_zero hremaining.ne'
  rw [doFrom, hwait, hoperation]
  simp [hpermanent]

end Provider

end RunnerYard
