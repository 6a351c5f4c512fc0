import RunnerYard.Base.Table
import RunnerYard.Base.Text
import RunnerYard.Provider.Error
import Mathlib.Data.List.Sort
import Mathlib.Data.String.Basic

/-!
# The retirement journal

`retirement_queue.go`: one entry per runner whose worker or registration still has to be cleaned up. An entry is the durable proof of what may be deleted, so a put never changes the lease, the scale set, or the budget disposition of a pending entry, and binds its runner id once.
-/

namespace RunnerYard

inductive BudgetDisposition where
  | settleActualUsage
  | forfeitReservation
  deriving DecidableEq, Repr

structure RetirementEntry where
  runnerName : String
  runnerID : Int := 0
  runnerScaleSetID : Int
  leaseID : String
  budgetDisposition : BudgetDisposition
  stoppedAt : Int := 0
  requestedAt : Int := 0
  deriving DecidableEq, Repr

/-- How a write to disk ends. A write that fails may have replaced the file all the same. -/
inductive Disk where
  | ok
  | failed (message : String) (landed : Bool)
  deriving DecidableEq, Repr

namespace Disk

def failure : Disk → Option String
  | ok => none
  | failed message _ => some message

def file {α : Type} (old new : α) : Disk → α
  | ok => new
  | failed _ landed => if landed then new else old

end Disk

/-- `managedRunnerName`: `runner-` and eight hexadecimal digits, or a UUID. -/
def managedRunnerName (name : String) : Bool :=
  let id := name.toList.drop 7
  let dash (i : Nat) : Bool := i == 8 || i == 13 || i == 18 || i == 23
  name.toList.take 7 == "runner-".toList &&
    ((id.length == 8 && id.all hexDigit) ||
      (id.length == 36 && id.zipIdx.all fun (c, i) => if dash i then c == '-' else hexDigit c))

example : managedRunnerName "runner-0f6a2b1c" = true ∧ managedRunnerName "runner-0f6a2b1" = false ∧
    managedRunnerName "runner-0f6a2b1c-1111-2222-3333-444455556666" = true := by decide

/-- `validateRetirementEntry`; a disposition outside the two there are is not a value here. -/
def validateRetirementEntry (entry : RetirementEntry) : Option Err :=
  if !managedRunnerName entry.runnerName then
    some (.text s!"invalid managed runner name \"{entry.runnerName}\" in retirement queue")
  else if entry.runnerID < 0 || entry.runnerScaleSetID < 1 || entry.leaseID = "" then
    some (.text s!"invalid identity proof for runner \"{entry.runnerName}\"")
  else none

/-- `retirementQueue`: the entries in memory and those in its file. -/
structure RetirementQueue where
  entries : Table RetirementEntry.runnerName
  file : List RetirementEntry
  deriving DecidableEq

namespace RetirementQueue

def merged (previous entry : RetirementEntry) : RetirementEntry :=
  { entry with
    runnerID := if entry.runnerID = 0 then previous.runnerID else entry.runnerID
    stoppedAt := if entry.stoppedAt = 0 then previous.stoppedAt else entry.stoppedAt
    requestedAt := if previous.requestedAt = 0 then entry.requestedAt else previous.requestedAt }

/-- Why `put` refuses to write an entry over a pending one. -/
def refusal (previous entry : RetirementEntry) : Option Err :=
  if previous.runnerScaleSetID ≠ entry.runnerScaleSetID || previous.leaseID ≠ entry.leaseID ||
      previous.budgetDisposition ≠ entry.budgetDisposition then
    some (.text s!"refusing to replace identity proof for runner \"{entry.runnerName}\"")
  else if previous.runnerID ≠ 0 && entry.runnerID ≠ 0 && previous.runnerID ≠ entry.runnerID then
    some (.text s!"refusing to replace registration id for runner \"{entry.runnerName}\"")
  else none

/-- Persist `entries`; when that fails the entries in memory stay as they were. -/
def persist (q : RetirementQueue) (entries : Table RetirementEntry.runnerName) (disk : Disk) : Option Err × RetirementQueue :=
  match disk.failure with
  | none => (none, { entries, file := entries.rows })
  | some message => (some (.disk message), { q with file := disk.file q.file entries.rows })

def put (q : RetirementQueue) (entry : RetirementEntry) (disk : Disk) : Option Err × RetirementQueue :=
  match validateRetirementEntry entry with
  | some failure => (some failure, q)
  | none =>
    match q.entries.get entry.runnerName with
    | none => q.persist (q.entries.put entry) disk
    | some previous =>
      match refusal previous entry with
      | some failure => (some failure, q)
      | none => q.persist (q.entries.put (merged previous entry)) disk

def remove (q : RetirementQueue) (name : String) (disk : Disk) : Option Err × RetirementQueue :=
  if (q.entries.get name).isSome then q.persist (q.entries.erase name) disk else (none, q)

/-- `all`, sorted by runner name. -/
def all (q : RetirementQueue) : List RetirementEntry :=
  q.entries.rows.insertionSort fun left right => left.runnerName.toList ≤ right.runnerName.toList

def count (q : RetirementQueue) : Nat := q.entries.size

def overdue (q : RetirementQueue) (now grace : Int) : Nat :=
  q.entries.rows.countP fun entry => entry.requestedAt = 0 || grace < now - entry.requestedAt

/-- The entries with one runner name each that the loop of `newRetirementQueue` accepts. -/
def loadEntries : List RetirementEntry → Table RetirementEntry.runnerName → Except Err (Table RetirementEntry.runnerName)
  | [], entries => .ok entries
  | entry :: rest, entries =>
    match validateRetirementEntry entry with
    | some failure => .error failure
    | none =>
      if (entries.get entry.runnerName).isSome then .error (.text s!"duplicate runner \"{entry.runnerName}\" in retirement queue")
      else loadEntries rest (entries.put entry)

/-- `newRetirementQueue` on a file of the current version. -/
def load (file : List RetirementEntry) : Except Err RetirementQueue :=
  (loadEntries file Table.empty).map fun entries => { entries, file }

variable {entry : RetirementEntry} {q : RetirementQueue} {file : List RetirementEntry}

theorem mem_all : entry ∈ q.all ↔ entry ∈ q.entries.rows :=
  (List.perm_insertionSort _ _).mem_iff

theorem all_nodup (q : RetirementQueue) : (q.all.map RetirementEntry.runnerName).Nodup :=
  ((List.perm_insertionSort _ q.entries.rows).map _).nodup_iff.mpr q.entries.nodup

theorem validate_eq_none_iff : validateRetirementEntry entry = none ↔
    managedRunnerName entry.runnerName = true ∧ 0 ≤ entry.runnerID ∧ 1 ≤ entry.runnerScaleSetID ∧ entry.leaseID ≠ "" := by
  unfold validateRetirementEntry
  split
  · rename_i hname
    simp only [Bool.not_eq_true'] at hname
    simp [hname]
  · rename_i hname
    simp only [Bool.not_eq_true', Bool.not_eq_false] at hname
    split
    · rename_i hproof
      simp only [Bool.or_eq_true, decide_eq_true_eq] at hproof
      simp only [reduceCtorEq, false_iff, not_and, ne_eq, not_not]
      intro _ hid hscale
      rcases hproof with (h | h) | h
      · omega
      · omega
      · exact h
    · rename_i hproof
      simp only [Bool.or_eq_true, decide_eq_true_eq, not_or, not_lt] at hproof
      exact ⟨fun _ => ⟨hname, hproof.1.1, hproof.1.2, hproof.2⟩, fun _ => rfl⟩

theorem validate_merged {previous : RetirementEntry} (hentry : validateRetirementEntry entry = none) (hprevious : validateRetirementEntry previous = none) :
    validateRetirementEntry (merged previous entry) = none := by
  rw [validate_eq_none_iff] at *
  obtain ⟨hname, hid, hscale, hlease⟩ := hentry
  refine ⟨hname, ?_, hscale, hlease⟩
  unfold merged
  dsimp only
  split <;> omega

theorem persist_cases (q : RetirementQueue) (entries : Table RetirementEntry.runnerName) (disk : Disk) :
    q.persist entries disk = (none, { entries, file := entries.rows }) ∨
      ∃ message file, q.persist entries disk = (some (.disk message), { q with file }) ∧ (file = q.file ∨ file = entries.rows) := by
  unfold persist
  cases disk with
  | ok => exact Or.inl rfl
  | failed message landed =>
    refine Or.inr ⟨message, _, rfl, ?_⟩
    cases landed with
    | false => exact Or.inl rfl
    | true => exact Or.inr rfl

theorem mem_loadEntries {start loaded : Table RetirementEntry.runnerName}
    (h : loadEntries file start = .ok loaded) :
    entry ∈ loaded.rows ↔ entry ∈ file ∨ entry ∈ start.rows := by
  induction file generalizing start with
  | nil =>
    simp only [loadEntries, Except.ok.injEq] at h
    simp [h]
  | cons first rest ih =>
    unfold loadEntries at h
    split at h
    · simp at h
    · split at h
      · simp at h
      · rename_i hnew
        rw [ih h, Table.mem_put, List.mem_cons]
        have hfresh : ∀ other ∈ start.rows, other.runnerName ≠ first.runnerName := by
          apply Table.get_eq_none_iff.mp
          simpa using hnew
        constructor
        · rintro (h | rfl | ⟨h, -⟩)
          · exact Or.inl (Or.inr h)
          · exact Or.inl (Or.inl rfl)
          · exact Or.inr h
        · rintro ((rfl | h) | h)
          · exact Or.inr (Or.inl rfl)
          · exact Or.inl h
          · exact Or.inr (Or.inr ⟨h, hfresh entry h⟩)

theorem load_rows (h : load file = .ok q) :
    entry ∈ q.entries.rows ↔ entry ∈ file := by
  unfold load at h
  cases hentries : loadEntries file Table.empty with
  | error failure => simp [hentries, Except.map] at h
  | ok entries =>
    simp only [hentries, Except.map, Except.ok.injEq] at h
    rw [← h, mem_loadEntries hentries]
    simp [Table.empty]

theorem load_file (h : load file = .ok q) : q.file = file := by
  unfold load at h
  cases hentries : loadEntries file Table.empty with
  | error failure => simp [hentries, Except.map] at h
  | ok entries =>
    simp only [hentries, Except.map, Except.ok.injEq] at h
    rw [← h]

theorem valid_loadEntries {entries entries' : Table RetirementEntry.runnerName} (h : loadEntries file entries = .ok entries') :
    ∀ entry ∈ file, validateRetirementEntry entry = none := by
  induction file generalizing entries with
  | nil => simp
  | cons first rest ih =>
    unfold loadEntries at h
    split at h
    · simp at h
    · rename_i hvalid
      split at h
      · simp at h
      · intro entry hentry
        rcases List.mem_cons.mp hentry with rfl | hrest
        · exact hvalid
        · exact ih h entry hrest

theorem load_valid (h : load file = .ok q) : ∀ entry ∈ q.entries.rows, validateRetirementEntry entry = none := by
  intro entry hentry
  have hfile := (load_rows h).mp hentry
  unfold load at h
  cases hentries : loadEntries file Table.empty with
  | error failure => simp [hentries, Except.map] at h
  | ok entries => exact valid_loadEntries hentries entry hfile

end RetirementQueue

end RunnerYard
