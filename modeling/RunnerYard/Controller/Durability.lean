import RunnerYard.Base.Text
import RunnerYard.Controller.Journal
import RunnerYard.Interaction.Runs

/-!
# The retirement journal on disk

`persistLocked` writes a temporary file, syncs it, renames it over the journal and syncs the directory; any of these calls may fail. A call before the rename, or the rename itself, leaves the journal as it was. A failure after it returns an error and is undone in memory only.

The file is modelled by the entries it decodes to, and by its size: `loadRetirementLedger` refuses a file of more than one MiB, and nothing keeps `persistLocked` from writing one. Times are written in UTC.
-/

namespace RunnerYard

open Interaction

/-- The calls of `persistLocked`, in their order. -/
inductive PersistStep where
  | mkdirAll
  | marshal
  | createTemp
  | chmodTemp
  | write
  | sync
  | close
  | rename
  | chmod
  | openDirectory
  | syncDirectory
  deriving DecidableEq, Repr

namespace PersistStep

def all : List PersistStep :=
  [mkdirAll, marshal, createTemp, chmodTemp, write, sync, close, rename, chmod, openDirectory, syncDirectory]

def message : PersistStep → String
  | mkdirAll => "create runner retirement queue directory"
  | marshal => "encode runner retirement queue"
  | createTemp => "create temporary runner retirement queue"
  | chmodTemp => "secure runner retirement queue"
  | write => "write runner retirement queue"
  | sync => "sync runner retirement queue"
  | close => "close runner retirement queue"
  | rename => "commit runner retirement queue"
  | chmod => "secure committed runner retirement queue"
  | openDirectory => "open runner retirement queue directory"
  | syncDirectory => "sync runner retirement queue directory"

def committed : PersistStep → Bool
  | chmod | openDirectory | syncDirectory => true
  | _ => false

end PersistStep

/-- The journal and the temporary file, by the entries they decode to. -/
structure JournalFiles where
  journal : List RetirementEntry
  temporary : Option (List RetirementEntry) := none
  deriving DecidableEq

/-- What a call does when it succeeds. A call that fails does nothing; the temporary file is removed in the end. -/
def PersistStep.effect (entries : List RetirementEntry) (files : JournalFiles) : PersistStep → JournalFiles
  | .createTemp => { files with temporary := some [] }
  | .write => { files with temporary := some entries }
  | .rename => { journal := files.temporary.getD files.journal, temporary := none }
  | _ => files

def PersistStep.error (step : PersistStep) (cause : String) : Err := .disk (step.message ++ ": " ++ cause)

def persistFrom (fails : PersistStep → Option String) (entries : List RetirementEntry) :
    List PersistStep → JournalFiles → Option Err × JournalFiles
  | [], files => (none, files)
  | step :: rest, files =>
    match fails step with
    | some cause => (some (step.error cause), files)
    | none => persistFrom fails entries rest (step.effect entries files)

/-- `persistLocked`, where `fails` says which calls fail and why. The entries are written in the order of their names. -/
def persistLocked (fails : PersistStep → Option String) (entries : Table RetirementEntry.runnerName) (files : JournalFiles) :
    Option Err × JournalFiles :=
  let rows := entries.rows.insertionSort fun left right => left.runnerName.toList ≤ right.runnerName.toList
  let result := persistFrom fails rows PersistStep.all files
  (result.1, { result.2 with temporary := none })

def firstFailure (fails : PersistStep → Option String) : Option PersistStep := PersistStep.all.find? fun step => (fails step).isSome

def outcome (fails : PersistStep → Option String) : Disk :=
  match firstFailure fails with
  | none => .ok
  | some step => .failed (step.message ++ ": " ++ (fails step).getD "") step.committed

theorem firstFailure_cons {fails : PersistStep → Option String} {step : PersistStep} {rest : List PersistStep} :
    (step :: rest).find? (fun step => (fails step).isSome) =
      if (fails step).isSome then some step else rest.find? fun step => (fails step).isSome := by
  rw [List.find?_cons]
  cases (fails step).isSome <;> rfl

/-- `Disk` says what matters of `persistLocked`: its error, and whether the new entries are in the file. -/
theorem persistLocked_outcome (fails : PersistStep → Option String) (entries : Table RetirementEntry.runnerName) (files : JournalFiles) :
    (persistLocked fails entries files).1 = (outcome fails).failure.map .disk ∧
      (persistLocked fails entries files).2.journal = (outcome fails).file files.journal
        (entries.rows.insertionSort fun left right => left.runnerName.toList ≤ right.runnerName.toList) := by
  unfold persistLocked outcome firstFailure PersistStep.all
  dsimp only
  -- the calls one after another; each either ends the write or goes on to the next
  iterate 11
    rw [persistFrom, firstFailure_cons]
    split
    · rename_i cause hfails
      simp [hfails, PersistStep.error, Disk.failure, Disk.file, PersistStep.committed, PersistStep.effect]
    rename_i hfails
    rw [hfails, Option.isSome_none, if_neg (by simp)]
  exact ⟨rfl, rfl⟩

/-! ### The size of the file -/

/-- A character in a JSON string, in bytes: `encoding/json` also escapes what is special in HTML and the two line separators. -/
def jsonCharSize (c : Char) : Nat :=
  if c.toNat ∈ [34, 92, 8, 12, 10, 13, 9] then 2
  else if c.toNat < 32 || c.toNat ∈ [60, 62, 38, 0x2028, 0x2029] then 6
  else c.utf8Size

def jsonStringSize (s : String) : Nat := 2 + (s.toList.map jsonCharSize).sum

/-- The digits of a fraction of `width` digits, without its trailing zeros. -/
def fractionDigits (n : Nat) : Nat → Nat
  | 0 => 0
  | width + 1 => if n % 10 = 0 then fractionDigits (n / 10) width else width + 1

/-- A UTC time in the format RFC 3339, to the nanosecond, in quotes. -/
def jsonTimeSize (t : Int) : Nat :=
  let fraction := fractionDigits (t % Duration.second).toNat 9
  22 + if fraction = 0 then 0 else 1 + fraction

def BudgetDisposition.text : BudgetDisposition → String
  | settleActualUsage => "settle"
  | forfeitReservation => "forfeit"

def jsonFieldSize (name : String) (value : Nat) : Nat := 6 + jsonStringSize name + 2 + value + 2

def jsonEntrySize (entry : RetirementEntry) : Nat :=
  "    \x7b\n".length + jsonFieldSize "runner_name" (jsonStringSize entry.runnerName) +
    (if entry.runnerID = 0 then 0 else jsonFieldSize "runner_id" (Text.itoa entry.runnerID).length) +
    jsonFieldSize "runner_scale_set_id" (Text.itoa entry.runnerScaleSetID).length + jsonFieldSize "lease_id" (jsonStringSize entry.leaseID) +
    jsonFieldSize "budget_disposition" (jsonStringSize entry.budgetDisposition.text) +
    jsonFieldSize "stopped_at" (jsonTimeSize entry.stoppedAt) + jsonFieldSize "requested_at" (jsonTimeSize entry.requestedAt) +
    "    \x7d".length - 1

def encodedSize (entries : List RetirementEntry) : Nat :=
  if entries = [] then "\x7b\n  \"version\": 2,\n  \"entries\": []\n\x7d\n".length
  else "\x7b\n  \"version\": 2,\n  \"entries\": [\n".length + (entries.map fun entry => jsonEntrySize entry + 2).sum - 1 + "  ]\n\x7d\n".length

def maximumRetirementQueueSize : Nat := 2 ^ 20

/-- `loadRetirementLedger` on a regular file of the controller's own. -/
def loadRetirementLedger (file : List RetirementEntry) : Except Err (List RetirementEntry) :=
  if encodedSize file < 1 || maximumRetirementQueueSize < encodedSize file then
    .error (.text "runner retirement queue size is outside the safe range")
  else .ok file

/-- `newRetirementQueue` on a file that the controller has written. -/
def reopen (file : List RetirementEntry) : Except Err RetirementQueue :=
  match loadRetirementLedger file with
  | .error err => .error err
  | .ok entries => RetirementQueue.load entries

example : encodedSize [] = 36 ∧ jsonTimeSize 0 = 22 ∧ jsonTimeSize 1500000000 = 24 ∧ jsonStringSize "a<b" = 10 := by decide

theorem encodedSize_pos (file : List RetirementEntry) : 1 ≤ encodedSize file := by
  unfold encodedSize
  split
  · decide
  · have hclosing : "  ]\n\x7d\n".length = 6 := rfl
    omega

variable {file : List RetirementEntry}

theorem encodedSize_perm {file' : List RetirementEntry} (h : file.Perm file') : encodedSize file = encodedSize file' := by
  have hsum := (h.map fun entry => jsonEntrySize entry + 2).sum_eq
  unfold encodedSize
  by_cases hempty : file = []
  · subst hempty
    rw [List.nil_perm.mp h]
  · have hempty' : file' ≠ [] := fun heq => hempty (List.perm_nil.mp (heq ▸ h))
    rw [if_neg hempty, if_neg hempty', hsum]

/-! ### What a restarted controller loads -/

def Loads (file : List RetirementEntry) (entries : Table RetirementEntry.runnerName) : Prop :=
  ∃ q, reopen file = .ok q ∧ ∀ name, q.entries.get name = entries.get name

namespace RetirementQueue

theorem loadEntries_of_valid {file : List RetirementEntry} (hvalid : ∀ entry ∈ file, validateRetirementEntry entry = none)
    {start : Table RetirementEntry.runnerName} (hnodup : (file.map (·.runnerName)).Nodup)
    (hfresh : ∀ entry ∈ file, start.get entry.runnerName = none) : ∃ entries, loadEntries file start = .ok entries := by
  induction file generalizing start with
  | nil => exact ⟨start, rfl⟩
  | cons first rest ih =>
    obtain ⟨hfirst, hrest⟩ := List.nodup_cons.mp hnodup
    have hnone := hfresh first List.mem_cons_self
    unfold loadEntries
    simp only [hvalid first List.mem_cons_self, hnone, Option.isSome_none, Bool.false_eq_true, if_false]
    refine ih (fun entry hentry => hvalid entry (List.mem_cons_of_mem _ hentry)) hrest fun entry hentry => ?_
    have hne : entry.runnerName ≠ first.runnerName := fun heq => hfirst (List.mem_map.mpr ⟨entry, hentry, heq⟩)
    rw [Table.get_put_of_ne hne]
    exact hfresh entry (List.mem_cons_of_mem _ hentry)

theorem nodup_of_loadEntries {file : List RetirementEntry} {start loaded : Table RetirementEntry.runnerName}
    (h : loadEntries file start = .ok loaded) :
    (file.map (·.runnerName)).Nodup ∧ ∀ entry ∈ file, start.get entry.runnerName = none := by
  induction file generalizing start with
  | nil => exact ⟨List.nodup_nil, fun entry hentry => absurd hentry List.not_mem_nil⟩
  | cons first rest ih =>
    unfold loadEntries at h
    split at h
    · cases h
    split at h
    · cases h
    rename_i hnew
    obtain ⟨hrest, hfresh⟩ := ih h
    have hnone : start.get first.runnerName = none := by simpa using hnew
    have hne : ∀ entry ∈ rest, entry.runnerName ≠ first.runnerName := by
      intro entry hentry heq
      have hget := hfresh entry hentry
      rw [heq, Table.get_put_self] at hget
      cases hget
    refine ⟨List.nodup_cons.mpr ⟨?_, hrest⟩, fun entry hentry => ?_⟩
    · intro hmem
      obtain ⟨entry, hentry, heq⟩ := List.mem_map.mp hmem
      exact hne entry hentry heq
    · rcases List.mem_cons.mp hentry with rfl | hentry
      · exact hnone
      · have hget := hfresh entry hentry
        rwa [Table.get_put_of_ne (hne entry hentry)] at hget

end RetirementQueue

open RetirementQueue

theorem load_of_reopen {q : RetirementQueue} (h : reopen file = .ok q) : RetirementQueue.load file = .ok q := by
  unfold reopen loadRetirementLedger at h
  split at h
  · cases h
  rename_i loaded hsize
  split at hsize
  · cases hsize
  · rwa [← Except.ok.inj hsize] at h

theorem loads_iff {entries : Table RetirementEntry.runnerName} : Loads file entries ↔
    encodedSize file ≤ maximumRetirementQueueSize ∧ (∀ entry ∈ entries.rows, validateRetirementEntry entry = none) ∧ file.Perm entries.rows := by
  have hpos := encodedSize_pos file
  constructor
  · rintro ⟨q, hopen, hget⟩
    unfold reopen loadRetirementLedger at hopen
    split at hopen
    · cases hopen
    rename_i loaded hsize
    split at hsize
    · cases hsize
    rename_i hfits
    simp only [Bool.or_eq_true, decide_eq_true_eq, not_or, not_lt] at hfits
    have hloaded : file = loaded := Except.ok.inj hsize
    subst hloaded
    have hrows : ∀ entry, entry ∈ q.entries.rows ↔ entry ∈ entries.rows := fun entry => by
      rw [← and_iff_left (a := entry ∈ q.entries.rows) rfl, ← Table.get_eq_some_iff (k := entry.runnerName), hget, Table.get_eq_some_iff,
        and_iff_left rfl]
    have hnodup : (file.map (·.runnerName)).Nodup := by
      unfold RetirementQueue.load at hopen
      cases hentries : loadEntries file Table.empty with
      | error failure => simp [hentries, Except.map] at hopen
      | ok loaded => exact (nodup_of_loadEntries hentries).1
    refine ⟨hfits.2, fun entry hentry => load_valid hopen entry ((hrows entry).mpr hentry), ?_⟩
    exact (List.perm_ext_iff_of_nodup hnodup.of_map entries.nodup.of_map).mpr fun entry => (load_rows hopen).symm.trans (hrows entry)
  · rintro ⟨hsize, hvalid, hperm⟩
    have hnodup : (file.map (·.runnerName)).Nodup := (hperm.map _).nodup_iff.mpr entries.nodup
    obtain ⟨loaded, hloaded⟩ := loadEntries_of_valid (fun entry hentry => hvalid entry (hperm.mem_iff.mp hentry)) hnodup
      fun entry _ => (Table.get_empty entry.runnerName : (Table.empty : Table RetirementEntry.runnerName).get entry.runnerName = none)
    refine ⟨{ entries := loaded, file }, ?_, Table.get_congr fun entry => ?_⟩
    · have hfits : ¬(encodedSize file < 1 || decide (maximumRetirementQueueSize < encodedSize file)) = true := by
        simp only [Bool.or_eq_true, decide_eq_true_eq]
        omega
      rw [reopen, loadRetirementLedger, if_neg hfits]
      simp only [RetirementQueue.load, hloaded, Except.map]
    · rw [mem_loadEntries hloaded, hperm.mem_iff]
      simp [Table.empty]

/-! ### Writes -/

inductive JournalWrite where
  | put (entry : RetirementEntry)
  | remove (name : String)
  deriving DecidableEq, Repr

namespace JournalWrite

def run (q : RetirementQueue) (disk : Disk) : JournalWrite → Option Err × RetirementQueue
  | put entry => q.put entry disk
  | remove name => q.remove name disk

/-- The entries that the call writes, unless it refuses or has nothing to do. -/
def writes (q : RetirementQueue) : JournalWrite → Option (Table RetirementEntry.runnerName)
  | put entry =>
    if (validateRetirementEntry entry).isSome then none
    else match q.entries.get entry.runnerName with
      | none => some (q.entries.put entry)
      | some previous => if (refusal previous entry).isSome then none else some (q.entries.put (merged previous entry))
  | remove name => if (q.entries.get name).isSome then some (q.entries.erase name) else none

variable {q : RetirementQueue} {write : JournalWrite} {entries : Table RetirementEntry.runnerName}

theorem run_of_writes (h : write.writes q = some entries) (disk : Disk) : write.run q disk = q.persist entries disk := by
  cases write with
  | put entry =>
    simp only [writes] at h
    split at h
    · cases h
    rename_i hvalid
    have hvalid' : validateRetirementEntry entry = none := by simpa using hvalid
    simp only [run, RetirementQueue.put, hvalid']
    cases hget : q.entries.get entry.runnerName with
    | none =>
      simp only [hget, Option.some.injEq] at h ⊢
      rw [h]
    | some previous =>
      simp only [hget] at h ⊢
      split at h
      · cases h
      · rename_i hrefusal
        have hrefusal' : refusal previous entry = none := by simpa using hrefusal
        rw [Option.some.injEq] at h
        simp only [hrefusal', h]
  | remove name =>
    simp only [writes] at h
    split at h
    · rename_i hget
      rw [Option.some.injEq] at h
      rw [run, RetirementQueue.remove, if_pos hget, h]
    · cases h

theorem run_of_not_writes (h : write.writes q = none) (disk : Disk) : (write.run q disk).2 = q := by
  cases write with
  | put entry =>
    simp only [writes] at h
    simp only [run, RetirementQueue.put]
    split
    · rfl
    rename_i hvalid
    rw [hvalid, if_neg (by simp)] at h
    split
    · rename_i hget
      simp only [hget, reduceCtorEq] at h
    · rename_i previous hget
      split
      · rfl
      · rename_i hrefusal
        simp [hget, hrefusal] at h
  | remove name =>
    simp only [writes] at h
    rw [run, RetirementQueue.remove]
    split
    · rename_i hget
      rw [if_pos hget] at h
      cases h
    · rfl

theorem valid_of_writes (hvalid : ∀ entry ∈ q.entries.rows, validateRetirementEntry entry = none) (h : write.writes q = some entries) :
    ∀ entry ∈ entries.rows, validateRetirementEntry entry = none := by
  intro stored hstored
  cases write with
  | put entry =>
    simp only [writes] at h
    split at h
    · cases h
    rename_i hentry
    have hentry' : validateRetirementEntry entry = none := by simpa using hentry
    split at h
    · rw [Option.some.injEq] at h
      subst h
      rcases Table.mem_put.mp hstored with rfl | ⟨hold, -⟩
      · exact hentry'
      · exact hvalid stored hold
    · rename_i previous hget
      split at h
      · cases h
      · rw [Option.some.injEq] at h
        subst h
        rcases Table.mem_put.mp hstored with rfl | ⟨hold, -⟩
        · exact validate_merged hentry' (hvalid previous (Table.mem_of_get hget))
        · exact hvalid stored hold
  | remove name =>
    simp only [writes] at h
    split at h
    · rw [Option.some.injEq] at h
      subst h
      exact hvalid stored (Table.mem_erase.mp hstored).1
    · cases h

end JournalWrite

/-- A call that returns an error has changed nothing, in memory and for a restarted controller; one that returns none has done its write in both. -/
def AllOrNothing (q : RetirementQueue) (write : JournalWrite) (fails : PersistStep → Option String) : Prop :=
  match (write.run q (outcome fails)).1 with
  | some _ => (write.run q (outcome fails)).2.entries = q.entries ∧ Loads (write.run q (outcome fails)).2.file q.entries
  | none => (write.run q (outcome fails)).2.entries = (write.writes q).getD q.entries ∧
      Loads (write.run q (outcome fails)).2.file ((write.writes q).getD q.entries)

/-- A journal call is all or nothing exactly when a write that succeeds is one that can be read back, and a write that fails after the rename changes nothing. -/
theorem journal_write_all_or_nothing_iff {q : RetirementQueue} (hsaved : Loads q.file q.entries) (write : JournalWrite)
    (fails : PersistStep → Option String) : AllOrNothing q write fails ↔ ∀ entries ∈ write.writes q,
      (firstFailure fails = none → encodedSize entries.rows ≤ maximumRetirementQueueSize) ∧
        ∀ step ∈ firstFailure fails, step.committed = true → ∀ name, entries.get name = q.entries.get name := by
  obtain ⟨hsize, hvalid, hperm⟩ := loads_iff.mp hsaved
  cases hwrites : write.writes q with
  | none =>
    simp only [Option.mem_def, reduceCtorEq, false_imp_iff, implies_true, iff_true]
    unfold AllOrNothing
    rw [JournalWrite.run_of_not_writes hwrites, hwrites, Option.getD_none]
    split <;> exact ⟨rfl, hsaved⟩
  | some entries =>
    have hvalid' := JournalWrite.valid_of_writes hvalid hwrites
    simp only [Option.mem_def, Option.some.injEq, forall_eq']
    unfold AllOrNothing
    rw [JournalWrite.run_of_writes hwrites, hwrites, Option.getD_some]
    unfold outcome
    cases hfirst : firstFailure fails with
    | none =>
      simp only [RetirementQueue.persist, Disk.failure, true_and, forall_const, reduceCtorEq, false_imp_iff, implies_true, and_true]
      rw [loads_iff]
      exact ⟨And.left, fun h => ⟨h, hvalid', List.Perm.refl _⟩⟩
    | some step =>
      simp only [RetirementQueue.persist, Disk.failure, Disk.file, true_and, Option.some.injEq, forall_eq', reduceCtorEq, false_imp_iff]
      cases hcommitted : step.committed with
      | false =>
        simp only [Bool.false_eq_true, if_false, false_imp_iff, iff_true]
        exact hsaved
      | true =>
        simp only [if_true, forall_const]
        -- the new entries are in the file: they are the old ones, or the file says something else
        rw [loads_iff]
        constructor
        · rintro ⟨-, -, hsame⟩ name
          exact Table.get_congr (fun entry => hsame.mem_iff) name
        · intro hsame
          have hrows : entries.rows.Perm q.entries.rows :=
            (List.perm_ext_iff_of_nodup entries.nodup.of_map q.entries.nodup.of_map).mpr fun entry => by
              rw [← and_iff_left (a := entry ∈ entries.rows) rfl, ← Table.get_eq_some_iff (k := entry.runnerName), hsame,
                Table.get_eq_some_iff, and_iff_left rfl]
          exact ⟨(encodedSize_perm (hrows.trans hperm.symm)).trans_le hsize, hvalid, hrows⟩

namespace Demo

def retirement : RetirementEntry :=
  { runnerName := "runner-0f6a2b1c", runnerScaleSetID := 7, leaseID := "0f6a2b1c", budgetDisposition := .settleActualUsage,
    requestedAt := 1700000000000000000 }

def journal : RetirementQueue := { entries := Table.empty, file := [] }

theorem journal_saved : Loads journal.file journal.entries := loads_iff.mpr ⟨by decide, by simp [journal, Table.empty], List.Perm.refl _⟩

def failsAt (step : PersistStep) (cause : String) (other : PersistStep) : Option String := if other = step then some cause else none

end Demo

/-- A rename that fails is such a case. -/
theorem journal_write_all_or_nothing_when_rename_fails :
    AllOrNothing Demo.journal (.put Demo.retirement) (Demo.failsAt .rename "device or resource busy") :=
  (journal_write_all_or_nothing_iff Demo.journal_saved _ _).mpr fun entries _ => by
    have hfirst : firstFailure (Demo.failsAt .rename "device or resource busy") = some .rename := by decide
    rw [hfirst]
    constructor
    · intro hnone
      cases hnone
    · intro step hstep hcommitted
      rw [Option.mem_def, Option.some.injEq] at hstep
      subst hstep
      cases hcommitted

/-- The directory sync fails after the rename: the call returns an error, memory has no entry, and a restarted controller has one. -/
theorem failed_put_survives_restart :
    Loads Demo.journal.file Demo.journal.entries ∧
      ∃ failure, (Demo.journal.put Demo.retirement (outcome (Demo.failsAt .syncDirectory "input/output error"))).1 = some failure ∧
        (Demo.journal.put Demo.retirement (outcome (Demo.failsAt .syncDirectory "input/output error"))).2.entries.get "runner-0f6a2b1c" = none ∧
        Loads (Demo.journal.put Demo.retirement (outcome (Demo.failsAt .syncDirectory "input/output error"))).2.file
          (Demo.journal.entries.put Demo.retirement) ∧
        ¬AllOrNothing Demo.journal (.put Demo.retirement) (Demo.failsAt .syncDirectory "input/output error") := by
  have hout : outcome (Demo.failsAt .syncDirectory "input/output error") =
      .failed "sync runner retirement queue directory: input/output error" true := by decide
  have hput : Demo.journal.put Demo.retirement (outcome (Demo.failsAt .syncDirectory "input/output error")) =
      (some (.disk "sync runner retirement queue directory: input/output error"), { Demo.journal with file := [Demo.retirement] }) := by
    rw [hout]
    decide +kernel
  refine ⟨Demo.journal_saved, _, by rw [hput], by rw [hput]; rfl, ?_, ?_⟩
  · rw [hput]
    exact loads_iff.mpr ⟨by decide, by decide, List.Perm.refl _⟩
  · unfold AllOrNothing
    rw [show JournalWrite.run Demo.journal (outcome (Demo.failsAt .syncDirectory "input/output error")) (.put Demo.retirement) = _ from hput]
    rintro ⟨-, hloads⟩
    obtain ⟨-, -, hperm⟩ := loads_iff.mp hloads
    exact absurd hperm.length_eq (by decide)

/-! ### The proof of a pending retirement -/

structure Kept (old new : RetirementEntry) : Prop where
  leaseID : new.leaseID = old.leaseID
  runnerScaleSetID : new.runnerScaleSetID = old.runnerScaleSetID
  budgetDisposition : new.budgetDisposition = old.budgetDisposition
  runnerID : old.runnerID ≠ 0 → new.runnerID = old.runnerID
  requestedAt : old.requestedAt ≠ 0 → new.requestedAt = old.requestedAt
  stoppedAt : old.stoppedAt ≠ 0 → new.stoppedAt ≠ 0

theorem Kept.refl (entry : RetirementEntry) : Kept entry entry := ⟨rfl, rfl, rfl, fun _ => rfl, fun _ => rfl, id⟩

theorem Kept.trans {first second third : RetirementEntry} (h : Kept first second) (h' : Kept second third) : Kept first third where
  leaseID := h'.leaseID.trans h.leaseID
  runnerScaleSetID := h'.runnerScaleSetID.trans h.runnerScaleSetID
  budgetDisposition := h'.budgetDisposition.trans h.budgetDisposition
  runnerID hset := (h'.runnerID ((h.runnerID hset).symm ▸ hset)).trans (h.runnerID hset)
  requestedAt hset := (h'.requestedAt ((h.requestedAt hset).symm ▸ hset)).trans (h.requestedAt hset)
  stoppedAt hset := h'.stoppedAt (h.stoppedAt hset)

theorem kept_merged {previous entry : RetirementEntry} (hrefusal : refusal previous entry = none) : Kept previous (merged previous entry) := by
  unfold refusal at hrefusal
  split at hrefusal
  · cases hrefusal
  rename_i hidentity
  split at hrefusal
  · cases hrefusal
  rename_i hid
  simp only [ne_eq, Bool.or_eq_true, decide_eq_true_eq, not_or, not_not] at hidentity
  simp only [ne_eq, Bool.and_eq_true, decide_eq_true_eq, not_and, not_not] at hid
  obtain ⟨⟨hscaleSet, hlease⟩, hdisposition⟩ := hidentity
  refine ⟨hlease.symm, hscaleSet.symm, hdisposition.symm, fun hset => ?_, fun hset => if_neg hset, fun hset => ?_⟩ <;> simp only [merged]
  · split
    · rfl
    · rename_i hnew
      exact (hid ⟨hset, hnew⟩).symm
  · split
    · exact hset
    · assumption

theorem JournalWrite.kept_of_writes {q : RetirementQueue} {write : JournalWrite} {entries : Table RetirementEntry.runnerName} {name : String}
    {entry : RetirementEntry} (hpending : q.entries.get name = some entry) (hother : write ≠ .remove name) (h : write.writes q = some entries) :
    ∃ entry', entries.get name = some entry' ∧ Kept entry entry' := by
  cases write with
  | put new =>
    simp only [writes] at h
    split at h
    · cases h
    by_cases hname : new.runnerName = name
    · subst hname
      rw [hpending] at h
      dsimp only at h
      split at h
      · cases h
      rename_i hrefusal
      rw [Option.some.injEq] at h
      subst h
      exact ⟨merged entry new, Table.get_put_self _ (merged entry new), kept_merged (by simpa using hrefusal)⟩
    · refine ⟨entry, ?_, Kept.refl entry⟩
      split at h
      · rw [Option.some.injEq] at h
        rw [← h, Table.get_put_of_ne (Ne.symm hname), hpending]
      · split at h
        · cases h
        rename_i previous _ _
        rw [Option.some.injEq] at h
        have hname' : name ≠ (merged previous new).runnerName := Ne.symm hname
        rw [← h, Table.get_put_of_ne hname', hpending]
  | remove other =>
    simp only [writes] at h
    split at h
    · rw [Option.some.injEq] at h
      have hne : name ≠ other := fun heq => hother (heq ▸ rfl)
      exact ⟨entry, by rw [← h, Table.get_erase_of_ne hne, hpending], Kept.refl entry⟩
    · cases h

theorem encodedSize_sublist {file' : List RetirementEntry} (h : file.Sublist file') : encodedSize file ≤ encodedSize file' := by
  have hsum := (h.map fun entry => jsonEntrySize entry + 2).sum_le_sum fun _ _ => Nat.zero_le _
  unfold encodedSize
  have hempty : "\x7b\n  \"version\": 2,\n  \"entries\": []\n\x7d\n".length = 36 := by decide
  have hopening : "\x7b\n  \"version\": 2,\n  \"entries\": [\n".length = 33 := by decide
  have hclosing : "  ]\n\x7d\n".length = 6 := by decide
  split
  · split
    · exact le_refl _
    · rename_i hcons
      obtain ⟨first, rest, rfl⟩ := List.exists_cons_of_ne_nil hcons
      simp only [List.map_cons, List.sum_cons]
      omega
  · rename_i hcons
    have hcons' : file' ≠ [] := fun heq => hcons (List.sublist_nil.mp (heq ▸ h))
    rw [if_neg hcons']
    omega

inductive JournalStep where
  | call (write : JournalWrite) (fails : PersistStep → Option String)
  | reload

namespace JournalStep

def exec : JournalStep → RetirementQueue → Option RetirementQueue
  | call write fails, q => some (write.run q (outcome fails)).2
  | reload, q => (reopen q.file).toOption

/-- The steps that leave `name` pending: no removal of it, no write that fails after the rename, and no write of a journal that is too large to read. -/
def Sparing (name : String) (q : RetirementQueue) : JournalStep → Prop
  | call write fails => write ≠ .remove name ∧ (∀ step ∈ firstFailure fails, step.committed = false) ∧
      ∀ entry, write = .put entry → ∀ entries ∈ write.writes q, encodedSize entries.rows ≤ maximumRetirementQueueSize
  | reload => True

end JournalStep

/-- A call that does not fail after the rename leaves file and memory in agreement. -/
theorem JournalWrite.loads_run {q : RetirementQueue} (hsaved : Loads q.file q.entries) (write : JournalWrite) {fails : PersistStep → Option String}
    (hfails : ∀ step ∈ firstFailure fails, step.committed = false)
    (hsize : ∀ entries ∈ write.writes q, encodedSize entries.rows ≤ maximumRetirementQueueSize) :
    Loads (write.run q (outcome fails)).2.file (write.run q (outcome fails)).2.entries ∧
      ((write.run q (outcome fails)).2.entries = q.entries ∨ write.writes q = some (write.run q (outcome fails)).2.entries) := by
  cases hwrites : write.writes q with
  | none =>
    rw [run_of_not_writes hwrites]
    exact ⟨hsaved, Or.inl rfl⟩
  | some entries =>
    rw [run_of_writes hwrites]
    unfold outcome
    cases hfirst : firstFailure fails with
    | none =>
      obtain ⟨-, hvalid, -⟩ := loads_iff.mp hsaved
      exact ⟨loads_iff.mpr ⟨hsize entries hwrites, valid_of_writes hvalid hwrites, List.Perm.refl _⟩, Or.inr rfl⟩
    | some step =>
      simp only [RetirementQueue.persist, Disk.failure, Disk.file, hfails step hfirst, Bool.false_eq_true, if_false, true_or, and_true]
      exact hsaved

/-- A pending retirement stays as it is but for what is learnt about it, over every sequence of calls and restarts that spares it. -/
theorem pending_proof_is_immutable {q₀ q : RetirementQueue} (hsaved : Loads q₀.file q₀.entries) {name : String} {entry : RetirementEntry}
    (hpending : q₀.entries.get name = some entry) (hrun : Reach JournalStep.exec (JournalStep.Sparing name) q₀ q) :
    Loads q.file q.entries ∧ ∃ entry', q.entries.get name = some entry' ∧ Kept entry entry' := by
  refine hrun.invariant (P := fun q => Loads q.file q.entries ∧ ∃ entry', q.entries.get name = some entry' ∧ Kept entry entry')
    ⟨hsaved, entry, hpending, Kept.refl entry⟩ ?_
  rintro q q' (⟨write, fails⟩ | _) ⟨hsaved, entry', hentry, hkept⟩ hok hstep
  · obtain ⟨hother, hfails, hsize⟩ := hok
    rw [JournalStep.exec, Option.some.injEq] at hstep
    subst hstep
    have hsize' : ∀ entries ∈ write.writes q, encodedSize entries.rows ≤ maximumRetirementQueueSize := by
      intro entries hentries
      cases write with
      | put new => exact hsize new rfl entries hentries
      | remove other =>
        -- the journal only gets smaller
        obtain ⟨hfits, -, hperm⟩ := loads_iff.mp hsaved
        simp only [JournalWrite.writes, Option.mem_def] at hentries
        split at hentries
        · rw [Option.some.injEq] at hentries
          rw [← hentries]
          calc encodedSize (q.entries.erase other).rows ≤ encodedSize q.entries.rows := encodedSize_sublist List.filter_sublist
            _ = encodedSize q.file := (encodedSize_perm hperm).symm
            _ ≤ maximumRetirementQueueSize := hfits
        · cases hentries
    obtain ⟨hloads, hsame | hnew⟩ := write.loads_run hsaved hfails hsize'
    · exact ⟨hloads, entry', hsame ▸ hentry, hkept⟩
    · obtain ⟨entry'', hentry', hkept'⟩ := JournalWrite.kept_of_writes hentry hother hnew
      exact ⟨hloads, entry'', hentry', hkept.trans hkept'⟩
  · obtain ⟨hfits, hvalid, hperm⟩ := loads_iff.mp hsaved
    obtain ⟨loaded, hopen, hget⟩ := hsaved
    have heq : q' = loaded := by
      rw [JournalStep.exec, hopen] at hstep
      exact (Option.some.inj hstep).symm
    subst heq
    have hfile : q'.file = q.file := load_file (load_of_reopen hopen)
    exact ⟨hfile ▸ ⟨q', hopen, fun _ => rfl⟩, entry', (hget name).trans hentry, hkept⟩

namespace Demo

def pending : RetirementQueue := { entries := Table.empty.put retirement, file := [retirement] }

theorem pending_saved : Loads pending.file pending.entries := loads_iff.mpr ⟨by decide, by decide, List.Perm.refl _⟩

def learnt : RetirementEntry := { retirement with runnerID := 9, stoppedAt := 1700000060000000000 }

def resolved : RetirementQueue := { entries := Table.empty.put learnt, file := [learnt] }

end Demo

/-- The registration id is learnt, then the controller restarts. -/
theorem pending_proof_is_immutable_across_restart :
    Loads Demo.resolved.file Demo.resolved.entries ∧
      ∃ entry', Demo.resolved.entries.get "runner-0f6a2b1c" = some entry' ∧ Kept Demo.retirement entry' := by
  have hwrites : JournalWrite.writes Demo.pending (.put Demo.learnt) = some Demo.resolved.entries := by decide +kernel
  have hsparing : JournalStep.Sparing "runner-0f6a2b1c" Demo.pending (.call (.put Demo.learnt) fun _ => none) := by
    refine ⟨by simp, by decide, fun _ _ entries hentries => ?_⟩
    rw [hwrites, Option.mem_def, Option.some.injEq] at hentries
    rw [← hentries]
    decide
  have hput : JournalStep.exec (.call (.put Demo.learnt) fun _ => none) Demo.pending = some Demo.resolved := by
    rw [JournalStep.exec, JournalWrite.run_of_writes hwrites]
    decide +kernel
  have hreload : JournalStep.exec .reload Demo.resolved = some Demo.resolved := by decide +kernel
  have hspared : JournalStep.Sparing "runner-0f6a2b1c" Demo.resolved .reload := trivial
  exact pending_proof_is_immutable Demo.pending_saved (by decide) ((Reach.start.step hsparing hput).step hspared hreload)

theorem length_le_jsonStringSize (s : String) : s.length + 2 ≤ jsonStringSize s := by
  have hchar : ∀ c, 1 ≤ jsonCharSize c := by
    intro c
    unfold jsonCharSize
    split
    · decide
    · split
      · decide
      · exact c.utf8Size_pos
  have hsum : (s.toList.map jsonCharSize).length • 1 ≤ (s.toList.map jsonCharSize).sum := by
    refine List.card_nsmul_le_sum _ 1 fun size hsize => ?_
    obtain ⟨c, -, rfl⟩ := List.mem_map.mp hsize
    exact hchar c
  rw [List.length_map, String.length_toList, nsmul_one, Nat.cast_id] at hsum
  unfold jsonStringSize
  omega

theorem leaseID_length_le_encodedSize {entry : RetirementEntry} (h : entry ∈ file) :
    entry.leaseID.length < encodedSize file := by
  have hentry : jsonEntrySize entry + 2 ≤ (file.map fun entry => jsonEntrySize entry + 2).sum :=
    List.single_le_sum (fun _ _ => Nat.zero_le _) _ (List.mem_map_of_mem h)
  have hlease := length_le_jsonStringSize entry.leaseID
  have hsize : jsonStringSize entry.leaseID ≤ jsonEntrySize entry := by
    unfold jsonEntrySize jsonFieldSize
    omega
  unfold encodedSize
  rw [if_neg (List.ne_nil_of_mem h)]
  omega

namespace Demo

def oversized : RetirementEntry := { retirement with runnerName := "runner-00000001", leaseID := String.ofList (List.replicate (2 ^ 20) 'x') }

theorem oversized_valid : validateRetirementEntry oversized = none := by
  refine RetirementQueue.validate_eq_none_iff.mpr ⟨by decide, by decide, by decide, fun hempty => ?_⟩
  have hlength := congrArg String.length hempty
  simp only [oversized, String.length_ofList, List.length_replicate] at hlength
  exact absurd hlength (by decide)

end Demo

/-- A retirement with a lease id of 2^20 letters is accepted and written, and the next start refuses the file. -/
theorem accepted_put_stops_restart :
    Loads Demo.pending.file Demo.pending.entries ∧ Demo.pending.entries.get "runner-0f6a2b1c" = some Demo.retirement ∧
      (JournalWrite.run Demo.pending (outcome fun _ => none) (.put Demo.oversized)).1 = none ∧
      ∃ q, JournalStep.exec (.call (.put Demo.oversized) fun _ => none) Demo.pending = some q ∧
        reopen q.file = .error (.text "runner retirement queue size is outside the safe range") ∧ JournalStep.exec .reload q = none := by
  have hwrites : JournalWrite.writes Demo.pending (.put Demo.oversized) = some (Demo.pending.entries.put Demo.oversized) := by
    simp only [JournalWrite.writes, Demo.oversized_valid, Option.isSome_none, Bool.false_eq_true, if_false]
    rfl
  have hout : outcome (fun _ => none) = .ok := by decide
  have hlarge : reopen (Demo.pending.entries.put Demo.oversized).rows = .error (.text "runner retirement queue size is outside the safe range") := by
    have hmem : Demo.oversized ∈ (Demo.pending.entries.put Demo.oversized).rows := List.mem_cons_self
    have hlease := leaseID_length_le_encodedSize hmem
    have hlength : Demo.oversized.leaseID.length = maximumRetirementQueueSize := by
      simp only [Demo.oversized, String.length_ofList, List.length_replicate, maximumRetirementQueueSize]
    rw [hlength] at hlease
    rw [reopen, loadRetirementLedger, if_pos (by simp [hlease])]
  rw [JournalStep.exec, JournalWrite.run_of_writes hwrites, hout]
  refine ⟨Demo.pending_saved, by decide, rfl, _, rfl, hlarge, ?_⟩
  rw [JournalStep.exec]
  exact congrArg Except.toOption hlarge

end RunnerYard
