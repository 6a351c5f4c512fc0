import RunnerYard.Base.Table
import RunnerYard.Provider.Error

/-!
# The workers the controller knows

`state.go`: the workers of this process by runner name, and the workers that left before GitHub reported their job finished. Every method holds the state's lock, so each is one function under the source's name.
-/

namespace RunnerYard

/-- `workerRecord`. A worker this process launched, or whose job it saw start, is observed; an adopted one is not. -/
structure WorkerRecord where
  worker : Worker
  busy : Bool := false
  observed : Bool := false
  missingSince : Int := 0
  deriving DecidableEq, Repr

structure Departure where
  worker : Worker
  busy : Bool
  at_ : Int
  stopped : Bool := false
  awaiting : Bool := false
  deriving DecidableEq, Repr

def WorkerRecord.name (record : WorkerRecord) : String := record.worker.runnerName

def Departure.name (departure : Departure) : String := departure.worker.runnerName

/-- `workerState`, less its lock. -/
structure WorkerState where
  workers : Table WorkerRecord.name
  departed : Table Departure.name
  deriving DecidableEq

namespace WorkerState

def empty : WorkerState := { workers := Table.empty, departed := Table.empty }

/-- `markDeparted` and `markStopped`: a worker remembered as stopped keeps its first stop. -/
def remember (s : WorkerState) (departure : Departure) : WorkerState :=
  if (s.departed.get departure.name).any (·.stopped) then s else { s with departed := s.departed.put departure }

def markDeparted (s : WorkerState) (record : WorkerRecord) (at_ : Int) : WorkerState :=
  s.remember { worker := record.worker, busy := record.busy, at_ }

def markStopped (s : WorkerState) (record : WorkerRecord) (at_ : Int) (awaiting : Bool) : WorkerState :=
  s.remember { worker := record.worker, busy := record.busy, at_, stopped := true, awaiting }

def markDepartedBusy (s : WorkerState) (name : String) : Option Departure × WorkerState :=
  match s.departed.get name with
  | some departure =>
    let departure := { departure with busy := true }
    (some departure, { s with departed := s.departed.put departure })
  | none => (none, s)

def overdue (before : Int) (departure : Departure) : Bool := departure.awaiting && decide (departure.at_ < before)

/-- `takeOverdue`: each departure is returned once. -/
def takeOverdue (s : WorkerState) (before : Int) : List Departure × WorkerState :=
  let taken := (s.departed.rows.filter (overdue before)).map ({ · with awaiting := false })
  (taken, { s with departed := taken.foldl Table.put s.departed })

def takeDeparted (s : WorkerState) (name : String) : Option Departure × WorkerState :=
  (s.departed.get name, { s with departed := s.departed.erase name })

def pruneDeparted (s : WorkerState) (before : Int) : WorkerState :=
  { s with departed := s.departed.filter fun departure => !decide (departure.at_ < before) }

def add (s : WorkerState) (worker : Worker) (busy : Bool) : WorkerState :=
  { s with workers := s.workers.put { worker, busy, observed := true } }

def adopt (s : WorkerState) (worker : Worker) : WorkerState := { s with workers := s.workers.put { worker } }

def count (s : WorkerState) : Nat := s.workers.size

/-- `countScaleSet`: the workers of one scale set, and the whole fleet. -/
def countScaleSet (s : WorkerState) (id : Int) : Nat × Nat :=
  (s.workers.rows.countP fun record => record.worker.runnerScaleSetID = id, s.count)

/-- `summary`: all workers, and those busy, idle, and never observed. -/
def summary (s : WorkerState) : Nat × Nat × Nat × Nat :=
  (s.count, s.workers.rows.countP (fun record => record.observed && record.busy),
    s.workers.rows.countP (fun record => record.observed && !record.busy), s.workers.rows.countP fun record => !record.observed)

/-- `idleByStart`: of the workers `includes` accepts, those that may run a job, and the observed idle ones that are fast and slow to start. -/
def idleByStart (s : WorkerState) (includes : Worker → Bool) (fast : String → Bool) : Nat × Nat × Nat :=
  let mine := s.workers.rows.filter fun record => includes record.worker
  let idle := mine.filter fun record => record.observed && !record.busy
  (mine.countP (fun record => record.busy || !record.observed), idle.countP (fun record => fast record.worker.id),
    idle.countP fun record => !fast record.worker.id)

def markBusy (s : WorkerState) (name : String) : Bool × WorkerState :=
  match s.workers.get name with
  | some record => (true, { s with workers := s.workers.put { record with busy := true, observed := true, missingSince := 0 } })
  | none => (false, s)

def markMissing (s : WorkerState) (name : String) (at_ : Int) : Bool × WorkerState :=
  match s.workers.get name with
  | some record =>
    if record.missingSince = 0 then (true, { s with workers := s.workers.put { record with missingSince := at_ } }) else (true, s)
  | none => (false, s)

def markPresent (s : WorkerState) (name : String) : WorkerState :=
  match s.workers.get name with
  | some record => if record.missingSince = 0 then s else { s with workers := s.workers.put { record with missingSince := 0 } }
  | none => s

def remove (s : WorkerState) (name : String) : WorkerState := { s with workers := s.workers.erase name }

end WorkerState

/-- `workerStopped`. Provider states are ASCII words; space around them and their case are ignored. -/
def normalizedState (state : String) : List Char :=
  ((state.toList.dropWhile Char.isWhitespace).reverse.dropWhile Char.isWhitespace).reverse.map Char.toLower

def workerStopped (state : String) : Bool :=
  ["stopped", "off", "failed", "destroyed", "suspended"].any fun word => word.toList = normalizedState state

example : workerStopped " Stopped " = true ∧ workerStopped "started" = false := by decide

end RunnerYard
