import RunnerYard.Controller.Guarantees

/-!
# Which registrations are removed

A registration is removed from GitHub only on the strength of the journal: an entry of its name carries its id, GitHub has just returned it under that name, and its scale set is one that the controller serves. The id of a pending entry is bound once. It may come from GitHub's answer to the generation of the runner, from the provider's worker, or from the registration itself just before it is removed; whichever comes first holds, through writes that fail and through restarts.

All of this is about one runner name at a time. `Drift` says what work for other names leaves alone: the entry of the name, and what GitHub answered last about it.
-/

namespace RunnerYard

open Interaction
open Interaction.Prog (Safe All forEach lift fanOut)

/-! ### The id of a pending entry -/

namespace RetirementQueue

variable {q : RetirementQueue} {entry previous : RetirementEntry} {entries entries' : Table RetirementEntry.runnerName}

def KeepsIDs (entries entries' : Table RetirementEntry.runnerName) : Prop :=
  ∀ entry ∈ entries.rows, entry.runnerID ≠ 0 → ∀ next ∈ entries'.rows, next.runnerName = entry.runnerName → next.runnerID = entry.runnerID

def Consistent (q : RetirementQueue) : Prop :=
  ∀ entry ∈ q.entries.rows, entry.runnerID ≠ 0 → ∀ saved ∈ q.file, saved.runnerName = entry.runnerName → saved.runnerID = entry.runnerID

theorem eq_of_runnerName (h : entry ∈ entries.rows) (h' : previous ∈ entries.rows) (hname : entry.runnerName = previous.runnerName) :
    entry = previous := by
  have hget := Table.get_of_mem h
  rw [show RetirementEntry.runnerName entry = previous.runnerName from hname, Table.get_of_mem h'] at hget
  exact (Option.some.inj hget).symm

theorem keepsIDs_refl (entries : Table RetirementEntry.runnerName) : KeepsIDs entries entries :=
  fun _ hentry _ _ hnext hname => by rw [eq_of_runnerName hnext hentry hname]

theorem keepsIDs_erase (entries : Table RetirementEntry.runnerName) (name : String) : KeepsIDs entries (entries.erase name) :=
  fun _ hentry _ _ hnext hname => by rw [eq_of_runnerName (Table.mem_erase.mp hnext).1 hentry hname]

theorem keepsIDs_put (h : ∀ previous, entries.get entry.runnerName = some previous → previous.runnerID ≠ 0 → entry.runnerID = previous.runnerID) :
    KeepsIDs entries (entries.put entry) := by
  intro old hold hbound next hnext hname
  rcases Table.mem_of_mem_put hnext with rfl | hkept
  · exact h old (hname ▸ Table.get_of_mem hold) hbound
  · rw [eq_of_runnerName hkept hold hname]

theorem merged_runnerID (hrefusal : refusal previous entry = none) (hbound : previous.runnerID ≠ 0) :
    (merged previous entry).runnerID = previous.runnerID := by
  unfold refusal at hrefusal
  split at hrefusal
  · simp at hrefusal
  · split at hrefusal
    · simp at hrefusal
    · rename_i hsame
      simp only [Bool.and_eq_true, decide_eq_true_eq, not_and, not_not] at hsame
      unfold merged
      dsimp only
      split
      · rfl
      · rename_i hnew
        exact (hsame ⟨hbound, hnew⟩).symm

theorem put_cases (q : RetirementQueue) (entry : RetirementEntry) (disk : Disk) :
    (∃ failure, q.put entry disk = (some failure, q)) ∨
      ∃ stored, q.put entry disk = q.persist (q.entries.put stored) disk ∧ KeepsIDs q.entries (q.entries.put stored) ∧
        stored.runnerName = entry.runnerName ∧ stored.runnerScaleSetID = entry.runnerScaleSetID ∧
        (entry.runnerID ≠ 0 → stored.runnerID = entry.runnerID) ∧
        ((∀ pending ∈ q.entries.rows, validateRetirementEntry pending = none) → validateRetirementEntry stored = none) := by
  unfold put
  split
  · exact Or.inl ⟨_, rfl⟩
  · rename_i hvalid
    split
    · rename_i hnone
      exact Or.inr ⟨entry, rfl, keepsIDs_put fun previous hprevious => by simp [hnone] at hprevious, rfl, rfl, fun _ => rfl, fun _ => hvalid⟩
    · rename_i previous hprevious
      split
      · exact Or.inl ⟨_, rfl⟩
      · rename_i hrefusal
        refine Or.inr ⟨merged previous entry, rfl, keepsIDs_put ?_, rfl, rfl, ?_, ?_⟩
        · intro other hother hbound
          rw [show (merged previous entry).runnerName = entry.runnerName from rfl, hprevious, Option.some.injEq] at hother
          subst hother
          exact merged_runnerID hrefusal hbound
        · intro hnew
          simp [merged, hnew]
        · exact fun hrows => validate_merged hvalid (hrows previous (Table.mem_of_get hprevious))

theorem remove_cases (q : RetirementQueue) (name : String) (disk : Disk) :
    q.remove name disk = (none, q) ∨ q.remove name disk = q.persist (q.entries.erase name) disk := by
  unfold remove
  split
  · exact Or.inr rfl
  · exact Or.inl rfl

theorem keepsIDs_persist (h : KeepsIDs q.entries entries) (disk : Disk) : KeepsIDs q.entries (q.persist entries disk).2.entries := by
  rcases q.persist_cases entries disk with hpersist | ⟨message, file, hpersist, -⟩ <;> rw [hpersist]
  · exact h
  · exact keepsIDs_refl q.entries

theorem consistent_persist (h : q.Consistent) (hkeeps : KeepsIDs q.entries entries) (disk : Disk) : (q.persist entries disk).2.Consistent := by
  rcases q.persist_cases entries disk with hpersist | ⟨message, file, hpersist, rfl | rfl⟩ <;> rw [hpersist]
  · exact keepsIDs_refl entries
  · exact h
  · exact hkeeps

theorem keepsIDs_put_entries (q : RetirementQueue) (entry : RetirementEntry) (disk : Disk) :
    KeepsIDs q.entries (q.put entry disk).2.entries := by
  rcases q.put_cases entry disk with ⟨failure, hput⟩ | ⟨stored, hput, hkeeps, -⟩ <;> rw [hput]
  · exact keepsIDs_refl q.entries
  · exact keepsIDs_persist hkeeps disk

theorem keepsIDs_remove_entries (q : RetirementQueue) (name : String) (disk : Disk) :
    KeepsIDs q.entries (q.remove name disk).2.entries := by
  rcases q.remove_cases name disk with hremove | hremove <;> rw [hremove]
  · exact keepsIDs_refl q.entries
  · exact keepsIDs_persist (keepsIDs_erase q.entries name) disk

theorem Consistent.put (h : q.Consistent) (entry : RetirementEntry) (disk : Disk) : (q.put entry disk).2.Consistent := by
  rcases q.put_cases entry disk with ⟨failure, hput⟩ | ⟨stored, hput, hkeeps, -⟩ <;> rw [hput]
  · exact h
  · exact consistent_persist h hkeeps disk

theorem Consistent.remove (h : q.Consistent) (name : String) (disk : Disk) : (q.remove name disk).2.Consistent := by
  rcases q.remove_cases name disk with hremove | hremove <;> rw [hremove]
  · exact h
  · exact consistent_persist h (keepsIDs_erase q.entries name) disk

theorem bound_of_put {q' : RetirementQueue} {disk : Disk} (h : q.put entry disk = (none, q')) :
    ∃ pending, q'.entries.get entry.runnerName = some pending ∧ pending ∈ q'.file ∧ pending.runnerName = entry.runnerName ∧
      pending.runnerScaleSetID = entry.runnerScaleSetID ∧ (entry.runnerID ≠ 0 → pending.runnerID = entry.runnerID) := by
  rcases q.put_cases entry disk with ⟨failure, hput⟩ | ⟨stored, hput, -, hname, hscale, hid, -⟩
  · rw [h] at hput
    simp at hput
  · rcases q.persist_cases (q.entries.put stored) disk with hpersist | ⟨message, file, hpersist, -⟩
    · rw [h, hpersist, Prod.mk.injEq] at hput
      obtain ⟨-, rfl⟩ := hput
      have hget : (q.entries.put stored).get entry.runnerName = some stored := hname ▸ Table.get_put_self q.entries stored
      exact ⟨stored, hget, Table.mem_of_get hget, hname, hscale, hid⟩
    · rw [h, hpersist] at hput
      simp at hput

theorem mem_persist {disk : Disk} (h : entry ∈ (q.persist entries disk).2.entries.rows) :
    entry ∈ q.entries.rows ∨ entry ∈ (q.persist entries disk).2.file := by
  rcases q.persist_cases entries disk with hpersist | ⟨message, file, hpersist, -⟩ <;> rw [hpersist] at h ⊢
  · exact Or.inr h
  · exact Or.inl h

theorem consistent_load {file : List RetirementEntry} (h : load file = .ok q) : q.Consistent := by
  intro entry hentry _ saved hsaved hname
  rw [load_file h] at hsaved
  rw [eq_of_runnerName ((load_rows h).mpr hsaved) hentry hname]

theorem Consistent.keepsIDs_load {q' : RetirementQueue} (h : q.Consistent) (hload : load q.file = .ok q') : KeepsIDs q.entries q'.entries :=
  fun entry hentry hbound next hnext hname => h entry hentry hbound next ((load_rows hload).mp hnext) hname

end RetirementQueue

theorem exists_runnerName {name : String} (h : managedRunnerName name = true) : ∃ leaseID, name = runnerName leaseID := by
  simp only [managedRunnerName, Bool.and_eq_true, beq_iff_eq] at h
  refine ⟨String.ofList (name.toList.drop 7), String.toList_inj.mp ?_⟩
  have htake : "runner-".toList = name.toList.take 7 := h.1.symm
  rw [runnerName, String.toList_append, htake, String.toList_ofList, List.take_append_drop]

namespace Registration

variable (s : Scaler) (I : Identity)

/-! ### The outline -/

def lastAnswer (name : String) : List LogEntry → Option (Except Err (Option RunnerReference))
  | [] => none
  | .call (.getRunnerByName other) answer :: rest => if other = name then some answer else lastAnswer name rest
  | _ :: rest => lastAnswer name rest

/-- The log shows an entry of the journal: it was written, or it was read. -/
def Shown (entry : RetirementEntry) (log : List LogEntry) : Prop :=
  LogEntry.call (.put entry) (none : Option Err) ∈ log ∨ ∃ entries : List RetirementEntry, LogEntry.call .retirements entries ∈ log ∧ entry ∈ entries

/-- The registration with the id may be removed for the name. -/
structure Warranted (name : String) (id : Int) (w : World) : Prop where
  shown : ∃ entry, Shown entry w.log ∧ entry.runnerName = name ∧ entry.runnerID = id ∧ s.servesScaleSet entry.runnerScaleSetID = true ∧
    ∃ runner, lastAnswer name w.log = some (.ok (some runner)) ∧ runner.name = name ∧ runner.id = id ∧
      (runner.runnerScaleSetID = 0 ∨ runner.runnerScaleSetID = entry.runnerScaleSetID)
  bound : id ≠ 0
  pending : ∀ entry, w.journal.entries.get name = some entry → entry.runnerID = id

def Guard : Call → World → Prop
  | .removeRunner id, w => ∃ name, Warranted s name id w
  | _, _ => True

def Mine (leaseID : String) : Call → World → Prop
  | .put entry, _ => entry.runnerName = runnerName leaseID
  | .remove name, _ => name = runnerName leaseID
  | .getRunnerByName name, _ => name = runnerName leaseID
  | _, _ => True

structure Env (w w' : World) : Prop where
  journal : w'.journal = w.journal
  log : w'.log = w.log

structure Drift (leaseID : String) (w w' : World) : Prop where
  journal : w'.journal.entries.get (runnerName leaseID) = w.journal.entries.get (runnerName leaseID)
  answer : lastAnswer (runnerName leaseID) w'.log = lastAnswer (runnerName leaseID) w.log
  log : w.log <:+ w'.log

/-- A registration that GitHub finds under a name has an id. -/
def Identified : Call → Choice → Prop
  | .getRunnerByName _, .runner (.ok (some runner)) => runner.id ≠ 0
  | _, _ => True

instance (op : Call) (choice : Choice) : Decidable (Identified op choice) := by
  induction op using Call.casesOn with
  | getRunnerByName name =>
    induction choice using Choice.casesOn with
    | runner answer =>
      induction answer using Except.casesOn with
      | error failure => exact isTrue trivial
      | ok found =>
        induction found using Option.casesOn with
        | none => exact isTrue trivial
        | some runner => exact inferInstanceAs (Decidable (runner.id ≠ 0))
    | _ => exact isTrue trivial
  | _ => exact isTrue trivial

def outline : ControllerOutline where
  allowed op choice _ := Contract I op choice ∧ Identified op choice
  inv w := ∀ entry ∈ w.journal.entries.rows, validateRetirementEntry entry = none
  aim _ := True
  guard := Guard s
  mine := Mine
  solo _ _ := True
  env := Env
  drift := Drift
  closed _ _ := True
  enter _ _ := True
  poolInv _ _ _ _ _ _ := True
  result _ _ _ _ := True

abbrev Own (leaseID : String) : Logic Call.Ans World := (outline s I).own World.exec leaseID

abbrev Alone : Logic Call.Ans World := (outline s I).alone World.exec

abbrev Main : Logic (MainAns Call.Ans LaunchRequest LaunchSummary) World := (outline s I).mainLogic s.fan World.exec

/-! ### What calls leave alone -/

section Frame

variable {s I} {leaseID : String} {w w' w'' : World} {op : Call} {choice : Choice} {answer : op.Ans}

theorem Drift.refl (w : World) : Drift leaseID w w := ⟨rfl, rfl, List.suffix_rfl⟩

theorem Drift.trans (h : Drift leaseID w w') (h' : Drift leaseID w' w'') : Drift leaseID w w'' :=
  ⟨h'.journal.trans h.journal, h'.answer.trans h.answer, h.log.trans h'.log⟩

theorem Env.drift (h : Env w w') : Drift leaseID w w' := ⟨by rw [h.journal], by rw [h.log], h.log ▸ List.suffix_rfl⟩

theorem Shown.suffix {entry : RetirementEntry} {log log' : List LogEntry} (h : Shown entry log) (hlog : log <:+ log') : Shown entry log' := by
  rcases h with hput | ⟨entries, hread, hentry⟩
  · exact Or.inl (hlog.subset hput)
  · exact Or.inr ⟨entries, hlog.subset hread, hentry⟩

def elsewhere : Call → Bool
  | .put _ => false
  | .remove _ => false
  | .getRunnerByName _ => false
  | .removeRunner _ => false
  | _ => true

theorem guard_of_elsewhere (h : elsewhere op = true) (w : World) : Guard s op w := by
  cases op <;> trivial

theorem mine_of_elsewhere (h : elsewhere op = true) (w : World) : Mine leaseID op w := by
  cases op <;> trivial

theorem lastAnswer_call {name : String} (log : List LogEntry) (hop : op ≠ .getRunnerByName name) :
    lastAnswer name (.call op answer :: log) = lastAnswer name log := by
  cases op with
  | getRunnerByName other =>
    have hne : other ≠ name := fun heq => hop (heq ▸ rfl)
    simp [lastAnswer, hne]
  | _ => rfl

theorem log_suffix (hexec : World.exec op choice w = some (answer, w')) : w.log <:+ w'.log := by
  rw [World.exec_log hexec]
  exact List.suffix_cons _ _

theorem drift_of_exec (hexec : World.exec op choice w = some (answer, w')) (hput : ∀ entry, op = .put entry → entry.runnerName ≠ runnerName leaseID)
    (hremove : op ≠ .remove (runnerName leaseID)) (hfind : op ≠ .getRunnerByName (runnerName leaseID)) : Drift leaseID w w' := by
  refine ⟨?_, ?_, log_suffix hexec⟩
  · rcases World.journal_of_exec hexec with ⟨entry, disk, rfl, hjournal⟩ | ⟨name, disk, rfl, hjournal⟩ | hjournal <;> rw [hjournal]
    · exact RetirementQueue.get_put_of_ne (hput entry rfl).symm
    · exact RetirementQueue.get_remove_of_ne fun heq => hremove (heq ▸ rfl)
  · rw [World.exec_log hexec, lastAnswer_call _ hfind]

theorem drift_of_elsewhere (h : elsewhere op = true) (hexec : World.exec op choice w = some (answer, w')) : Drift leaseID w w' := by
  apply drift_of_exec hexec
  · rintro entry rfl
    simp [elsewhere] at h
  · rintro rfl
    simp [elsewhere] at h
  · rintro rfl
    simp [elsewhere] at h

theorem drift_of_mine {other : String} (hne : other ≠ leaseID) (hmine : Mine leaseID op w)
    (hexec : World.exec op choice w = some (answer, w')) : Drift other w w' := by
  have hname := runnerName_ne hne
  apply drift_of_exec hexec
  · rintro entry rfl heq
    exact hname (heq.symm.trans hmine)
  · rintro rfl
    exact hname hmine
  · rintro rfl
    exact hname hmine

theorem inv_of_exec (hexec : World.exec op choice w = some (answer, w')) (hinv : (outline s I).inv w) : (outline s I).inv w' := by
  intro pending hpending
  rcases World.journal_of_exec hexec with ⟨entry, disk, -, hjournal⟩ | ⟨name, disk, -, hjournal⟩ | hjournal <;> rw [hjournal] at hpending
  · rcases w.journal.put_cases entry disk with ⟨failure, hput⟩ | ⟨stored, hput, -, -, -, -, hvalid⟩ <;> rw [hput] at hpending
    · exact hinv pending hpending
    · rcases w.journal.persist_cases (w.journal.entries.put stored) disk with hpersist | ⟨message, file, hpersist, -⟩ <;>
        rw [hpersist] at hpending
      · rcases Table.mem_of_mem_put hpending with rfl | hold
        · exact hvalid hinv
        · exact hinv pending hold
      · exact hinv pending hpending
  · exact hinv pending (RetirementQueue.mem_of_mem_remove hpending)
  · exact hinv pending hpending

end Frame

/-! ### Rules for one lease -/

section Own

variable {s I} {leaseID : String} {w w' : World} {id : Int} {retirement : RetirementEntry}

theorem own_ask {op : Call} {post : op.Ans → World → Prop} (hguard : Guard s op w) (hmine : Mine leaseID op w)
    (h : ∀ choice answer w₁ w', (outline s I).allowed op choice w → World.exec op choice w = some (answer, w₁) → Drift leaseID w₁ w' →
      post answer w') : Safe (Own s I leaseID) (ask op) post w := by
  refine Prog.safe_perform ⟨hguard, hmine⟩ fun answer w₁ hstep w' hrely => ?_
  obtain ⟨choice, hallowed, hexec, -⟩ := hstep
  exact h choice answer w₁ w' hallowed hexec hrely.1

theorem own_all {α : Type} {p : Script α} (h : All (elsewhere · = true) p) (w : World) :
    Safe (Own s I leaseID) p (fun _ w' => Drift leaseID w w') w := by
  refine h.safe (Drift leaseID w) (Drift.refl w) (fun op w' hop _ => ⟨guard_of_elsewhere hop w', mine_of_elsewhere hop w'⟩) ?_
  rintro op w₁ answer w₂ w₃ hop hdrift ⟨choice, -, hexec, -⟩ ⟨hdrift', -⟩
  exact (hdrift.trans (drift_of_elsewhere hop hexec)).trans hdrift'

theorem own_skip {op : Call} (h : elsewhere op = true) (w : World) :
    Safe (Own s I leaseID) (ask op) (fun _ w' => Drift leaseID w w') w := by
  refine own_ask (guard_of_elsewhere h w) (mine_of_elsewhere h w) fun choice answer w₁ w' _ hexec hdrift => ?_
  exact (drift_of_elsewhere h hexec).trans hdrift

theorem elsewhere_of_inward {op : Call} (h : op.inward = true) : elsewhere op = true := by
  cases op <;> trivial

theorem elsewhere_of_outer {op : Call} (h : op.outer = true) : elsewhere op = true := by
  cases op <;> first | rfl | cases h

theorem own_settling {α : Type} {p : Script α} (h : Settling p) (w : World) : Safe (Own s I leaseID) p (fun _ w' => Drift leaseID w w') w :=
  own_all (h.mono fun op hop => by cases op <;> first | rfl | cases hop) w

theorem own_inward {α : Type} {p : Script α} (h : Inward p) (w : World) :
    Safe (Own s I leaseID) p (fun _ w' => Drift leaseID w w') w := own_all (h.mono fun _ => elsewhere_of_inward) w

/-- If an entry of the lease is pending, it is bound to the id. -/
def Stays (leaseID : String) (id : Int) (w : World) : Prop :=
  id ≠ 0 → ∀ entry, w.journal.entries.get (runnerName leaseID) = some entry → entry.runnerID = id

theorem Stays.drift (h : Stays leaseID id w) (hdrift : Drift leaseID w w') : Stays leaseID id w' := by
  intro hid entry hentry
  rw [hdrift.journal] at hentry
  exact h hid entry hentry

/-- The entry in hand is backed by the journal: what it says of its id was recorded, and nothing else is pending. -/
structure Knows (leaseID : String) (retirement : RetirementEntry) (w : World) : Prop where
  name : retirement.runnerName = runnerName leaseID
  shown : Shown retirement w.log
  pending : ∀ entry, w.journal.entries.get (runnerName leaseID) = some entry → retirement.runnerID ≠ 0 →
    entry.runnerID = retirement.runnerID
  present : retirement.runnerID = 0 → ∃ entry, w.journal.entries.get (runnerName leaseID) = some entry

theorem Knows.drift (h : Knows leaseID retirement w) (hdrift : Drift leaseID w w') : Knows leaseID retirement w' where
  name := h.name
  shown := h.shown.suffix hdrift.log
  pending := by
    rw [hdrift.journal]
    exact h.pending
  present := by
    rw [hdrift.journal]
    exact h.present

theorem own_put (hname : retirement.runnerName = runnerName leaseID) (hstays : Stays leaseID id w)
    (hpresent : id ≠ 0 → ∃ entry, w.journal.entries.get (runnerName leaseID) = some entry) :
    Safe (Own s I leaseID) (ask (.put retirement)) (fun answer w' => Stays leaseID id w' ∧
      lastAnswer (runnerName leaseID) w'.log = lastAnswer (runnerName leaseID) w.log ∧
      (answer = none → Knows leaseID retirement w' ∧ ∃ entry, w'.journal.entries.get (runnerName leaseID) = some entry)) w := by
  refine own_ask trivial hname fun choice answer w₁ w' _ hexec hdrift => ?_
  have hlog := World.exec_log hexec
  obtain ⟨disk, hanswer, rfl⟩ := World.exec_put hexec
  refine ⟨Stays.drift ?_ hdrift, ?_, fun hok => ?_⟩
  · intro hid entry hentry
    obtain ⟨previous, hprevious⟩ := hpresent hid
    have hbound := hstays hid previous hprevious
    rw [← hbound]
    refine w.journal.keepsIDs_put_entries retirement disk previous (Table.mem_of_get hprevious) (hbound ▸ hid) entry
      (Table.mem_of_get hentry) ?_
    rw [show entry.runnerName = _ from Table.key_of_get hentry, show previous.runnerName = _ from Table.key_of_get hprevious]
  · rw [hdrift.answer, hlog, lastAnswer_call _ (by simp)]
  · have hput : w.journal.put retirement disk = (none, (w.journal.put retirement disk).2) := by rw [← hok, ← hanswer]
    obtain ⟨pending, hget, -, -, -, hid⟩ := RetirementQueue.bound_of_put hput
    rw [hname] at hget
    refine ⟨Knows.drift ⟨hname, Or.inl ?_, fun entry hentry hnew => ?_, fun _ => ⟨pending, hget⟩⟩ hdrift, pending, hdrift.journal.trans hget⟩
    · rw [hlog, hok]
      exact List.mem_cons_self
    · have heq := Option.some.inj (hget.symm.trans hentry)
      exact heq ▸ hid hnew

theorem own_remove (hname : retirement.runnerName = runnerName leaseID) (hstays : Stays leaseID id w) :
    Safe (Own s I leaseID) (ask (.remove retirement.runnerName)) (fun _ w' => Stays leaseID id w') w := by
  refine own_ask trivial hname fun choice answer w₁ w' _ hexec hdrift => Stays.drift ?_ hdrift
  obtain ⟨w₀, heffect, rfl⟩ := World.exec_eq_some_iff.mp hexec
  simp only [World.effect, World.onDisk_eq_some_iff, Prod.mk.injEq] at heffect
  obtain ⟨disk, -, -, rfl⟩ := heffect
  intro hid entry hentry
  exact hstays hid entry (Table.key_of_get hentry ▸ Table.get_of_mem (RetirementQueue.mem_of_mem_remove (Table.mem_of_get hentry)))

theorem own_find (hknows : Knows leaseID retirement w) (hstays : Stays leaseID id w) :
    Safe (Own s I leaseID) (ask (.getRunnerByName retirement.runnerName)) (fun answer w' => Knows leaseID retirement w' ∧
      Stays leaseID id w' ∧ lastAnswer (runnerName leaseID) w'.log = some answer ∧
      ∀ runner, answer = .ok (some runner) → runner.id ≠ 0) w := by
  refine own_ask trivial hknows.name fun choice answer w₁ w' hallowed hexec hdrift => ?_
  have hjournal : w₁.journal = w.journal := (World.exec_sameBut hexec).journal (by simp [Call.part])
  have hstays₁ : Stays leaseID id w₁ := by
    unfold Stays
    rw [hjournal]
    exact hstays
  have hknows₁ : Knows leaseID retirement w₁ :=
    ⟨hknows.name, hknows.shown.suffix (log_suffix hexec), by rw [hjournal]; exact hknows.pending, by rw [hjournal]; exact hknows.present⟩
  refine ⟨hknows₁.drift hdrift, hstays₁.drift hdrift, ?_, ?_⟩
  · rw [hdrift.answer, World.exec_log hexec]
    simp [lastAnswer, hknows.name]
  · rintro runner rfl
    obtain ⟨w₀, heffect, rfl⟩ := World.exec_eq_some_iff.mp hexec
    cases choice <;> simp only [World.effect, Option.some.injEq, Prod.mk.injEq, reduceCtorEq] at heffect
    obtain ⟨rfl, rfl⟩ := heffect
    exact hallowed.2

theorem identityCheck_own (lease : String) (mismatch : Option Err) (w : World) :
    Safe (Own s I leaseID) (identityCheck lease mismatch) (fun answer w' => answer = mismatch ∧ Drift leaseID w w') w := by
  cases mismatch with
  | none => exact ⟨rfl, Drift.refl w⟩
  | some failure => exact (own_skip rfl w).bind fun _ w₁ hdrift => ⟨rfl, hdrift⟩

theorem bindRegistration_own {bound : RetirementEntry} (hknows : Knows leaseID retirement w) (hstays : Stays leaseID id w)
    (hname : bound.runnerName = retirement.runnerName) (hsame : retirement.runnerID ≠ 0 → bound = retirement) :
    Safe (Own s I leaseID) (Scaler.bindRegistration retirement bound) (fun answer w' => Stays leaseID id w' ∧
      lastAnswer (runnerName leaseID) w'.log = lastAnswer (runnerName leaseID) w.log ∧ (answer = none → Knows leaseID bound w')) w := by
  unfold Scaler.bindRegistration
  split
  · rename_i hzero
    refine (own_put (hname.trans hknows.name) hstays fun _ => hknows.present hzero).mono ?_
    refine fun _ _ hresult => ?_
    obtain ⟨hstays', hanswer, hput⟩ := hresult
    exact ⟨hstays', hanswer, fun hok => (hput hok).1⟩
  · rename_i hbound
    rw [hsame hbound]
    exact ⟨hstays, rfl, fun _ => hknows⟩

theorem removeFoundRegistration_own {runner : RunnerReference} (hknows : Knows leaseID retirement w) (hstays : Stays leaseID id w)
    (hserves : s.servesScaleSet retirement.runnerScaleSetID = true) (hanswer : lastAnswer (runnerName leaseID) w.log = some (.ok (some runner)))
    (hid : runner.id ≠ 0) (hexpected : runner.unexpected retirement.runnerName retirement.runnerScaleSetID = false) :
    Safe (Own s I leaseID) (Scaler.removeFoundRegistration retirement runner) (fun _ w' => Stays leaseID id w') w := by
  unfold Scaler.removeFoundRegistration
  generalize hbound : ({ retirement with runnerID := if retirement.runnerID = 0 then runner.id else retirement.runnerID } : RetirementEntry) =
    bound
  have hscale : bound.runnerScaleSetID = retirement.runnerScaleSetID := by rw [← hbound]
  have hname : bound.runnerName = retirement.runnerName := by rw [← hbound]
  have hkept : retirement.runnerID ≠ 0 → bound = retirement := by
    intro hne
    rw [← hbound, if_neg hne]
  refine (bindRegistration_own hknows hstays hname hkept).bind fun failure w₁ hresult => ?_
  obtain ⟨hstays₁, hanswer₁, hknows₁⟩ := hresult
  cases failure with
  | some failure => exact hstays₁
  | none =>
    have hknows₁ := hknows₁ rfl
    refine (identityCheck_own _ _ w₁).bind fun mismatch w₂ hresult => ?_
    obtain ⟨hmismatch, hdrift₂⟩ := hresult
    have hstays₂ := hstays₁.drift hdrift₂
    cases mismatch with
    | some failure => exact hstays₂
    | none =>
      have hsame : runner.id = bound.runnerID := by
        by_contra hne
        simp [hne] at hmismatch
      have hknows₂ := hknows₁.drift hdrift₂
      have hanswer₂ := hdrift₂.answer.trans (hanswer₁.trans hanswer)
      simp only [RunnerReference.unexpected, Bool.or_eq_false_iff, decide_eq_false_iff_not, ne_eq, not_not, Bool.and_eq_false_iff] at hexpected
      have hwarranted : Warranted s (runnerName leaseID) bound.runnerID w₂ := by
        refine ⟨⟨bound, hknows₂.shown, hknows₂.name, rfl, hscale ▸ hserves, runner, hanswer₂, ?_, hsame, ?_⟩, hsame ▸ hid, ?_⟩
        · exact hexpected.1.trans hknows.name
        · rw [hscale]
          exact hexpected.2
        · exact fun entry hentry => hknows₂.pending entry hentry (hsame ▸ hid)
      have hremove : Safe (Own s I leaseID) (ask (.removeRunner bound.runnerID)) (fun _ w' => Stays leaseID id w') w₂ := by
        refine own_ask ⟨_, hwarranted⟩ trivial fun choice answer w₃ w' _ hexec hdrift => ?_
        refine hstays₂.drift ((drift_of_exec hexec ?_ ?_ ?_).trans hdrift) <;> simp
      refine hremove.bind fun failure w₃ hstays₃ => ?_
      cases failure with
      | some failure => exact hstays₃
      | none => exact hstays₃

theorem removeRunnerRegistration_own (hknows : Knows leaseID retirement w) (hstays : Stays leaseID id w) :
    Safe (Own s I leaseID) (s.removeRunnerRegistration retirement) (fun _ w' => Stays leaseID id w') w := by
  unfold Scaler.removeRunnerRegistration
  split
  · exact hstays
  · rename_i hserves
    refine (own_find hknows hstays).bind fun found w₁ hresult => ?_
    obtain ⟨hknows₁, hstays₁, hanswer₁, hid⟩ := hresult
    match found with
    | .error failure => exact hstays₁
    | .ok none => exact hstays₁
    | .ok (some runner) =>
      refine (identityCheck_own _ _ w₁).bind fun mismatch w₂ hresult => ?_
      obtain ⟨hmismatch, hdrift₂⟩ := hresult
      cases mismatch with
      | some failure => exact hstays₁.drift hdrift₂
      | none =>
        have hexpected : runner.unexpected retirement.runnerName retirement.runnerScaleSetID = false := by
          by_contra hne
          simp [hne] at hmismatch
        exact removeFoundRegistration_own (hknows₁.drift hdrift₂) (hstays₁.drift hdrift₂) (by simpa using hserves)
          (hdrift₂.answer.trans hanswer₁) (hid runner rfl) hexpected

/-! ### Retirement -/

theorem closeRetirement_own (hname : retirement.runnerName = runnerName leaseID) (hstays : Stays leaseID id w) :
    Safe (Own s I leaseID) (Scaler.closeRetirement retirement) (fun _ w' => Stays leaseID id w') w := by
  refine (own_skip rfl w).bind fun now w₁ hdrift₁ => ?_
  refine (own_settling (Scaler.settling_chargeRetirement retirement now) w₁).bind fun charged w₂ hdrift₂ => ?_
  have hstays₂ := hstays.drift (hdrift₁.trans hdrift₂)
  cases charged with
  | some failure => exact (own_inward (calm_degraded _ _).inward w₂).mono fun _ w₃ hdrift₃ => hstays₂.drift hdrift₃
  | none =>
    refine (own_skip rfl w₂).bind fun _ w₃ hdrift₃ => (own_remove hname (hstays₂.drift hdrift₃)).bind fun removed w₄ hstays₄ => ?_
    cases removed with
    | some failure => exact (own_inward (calm_degraded _ _).inward w₄).mono fun _ w₅ hdrift₅ => hstays₄.drift hdrift₅
    | none => exact (own_inward calm_reportRetirements.inward w₄).bind fun _ w₅ hdrift₅ => hstays₄.drift hdrift₅

theorem finishRetirement_own (worker : Worker) (providerPresent : Bool) (hknows : Knows leaseID retirement w) (hstays : Stays leaseID id w) :
    Safe (Own s I leaseID) (s.finishRetirement worker providerPresent retirement) (fun _ w' => Stays leaseID id w') w := by
  refine (identityCheck_own _ _ w).bind fun mismatch w₁ hresult => ?_
  obtain ⟨_, hdrift₁⟩ := hresult
  cases mismatch with
  | some failure => exact hstays.drift hdrift₁
  | none =>
    refine (own_settling (Scaler.settling_destroyPresent worker providerPresent) w₁).bind fun destroyed w₂ hdrift₂ => ?_
    have hdrift := hdrift₁.trans hdrift₂
    have hstays₂ := hstays.drift hdrift
    cases destroyed with
    | some failure => exact (own_inward (calm_degraded _ _).inward w₂).mono fun _ w₃ hdrift₃ => hstays₂.drift hdrift₃
    | none =>
      refine (removeRunnerRegistration_own (hknows.drift hdrift) hstays₂).bind fun removed w₃ hstays₃ => ?_
      cases removed with
      | some failure => exact (own_inward (calm_degraded _ _).inward w₃).mono fun _ w₄ hdrift₄ => hstays₃.drift hdrift₄
      | none => exact closeRetirement_own hknows.name hstays₃

theorem retireWorker_own {worker : Worker} (hname : worker.runnerName = runnerName leaseID) (providerPresent : Bool)
    (disposition : BudgetDisposition) (stoppedAt : Int) (hstays : Stays leaseID id w)
    (hpresent : id ≠ 0 → ∃ entry, w.journal.entries.get (runnerName leaseID) = some entry) :
    Safe (Own s I leaseID) (s.retireWorker worker providerPresent disposition stoppedAt) (fun _ w' => Stays leaseID id w') w := by
  refine (own_skip rfl w).bind fun now w₁ hdrift₁ => ?_
  have hretirement : (s.retirementOf worker disposition stoppedAt now).runnerName = runnerName leaseID := hname
  refine (own_put hretirement (hstays.drift hdrift₁) fun hid => ?_).bind fun failure w₂ hresult => ?_
  · rw [hdrift₁.journal]
    exact hpresent hid
  · obtain ⟨hstays₂, _, hknows₂⟩ := hresult
    cases failure with
    | some failure => exact (own_inward (calm_degraded _ _).inward w₂).mono fun _ w₃ hdrift₃ => hstays₂.drift hdrift₃
    | none =>
      refine (own_inward calm_reportRetirements.inward w₂).bind fun _ w₃ hdrift₃ => ?_
      refine (finishRetirement_own worker providerPresent ((hknows₂ rfl).1.drift hdrift₃) (hstays₂.drift hdrift₃)).bind ?_
      exact fun _ w₄ hstays₄ => hstays₄

/-! ### Launches -/

theorem stays_zero (leaseID : String) (w : World) : Stays leaseID 0 w := fun hid => absurd rfl hid

theorem own_suffix {α : Type} {p : Script α} {post : α → World → Prop} (h : Safe (Own s I leaseID) p post w) :
    Safe (Own s I leaseID) p (fun a w' => post a w' ∧ w.log <:+ w'.log) w := by
  refine h.frame (show (fun w' : World => w.log <:+ w'.log) w from List.suffix_rfl) (fun _ _ _ hguard => hguard) ?_ ?_
  · rintro op w₁ answer w₂ hsuffix - ⟨choice, hallowed, hexec, hinv⟩
    exact ⟨⟨choice, hallowed, hexec, hinv⟩, hsuffix.trans (log_suffix hexec)⟩
  · exact fun w₁ w₂ hsuffix hrely => ⟨hrely, hsuffix.trans hrely.1.log⟩

theorem cleanupRejectedLaunch_own (hknows : Knows leaseID retirement w) :
    Safe (Own s I leaseID) (s.cleanupRejectedLaunch retirement) (fun _ _ => True) w := by
  refine (removeRunnerRegistration_own hknows (stays_zero leaseID w)).bind fun unregistered w₁ _ => ?_
  cases unregistered with
  | some failure => exact (own_inward (calm_degraded _ _).inward w₁).mono fun _ _ _ => trivial
  | none =>
    refine (own_skip rfl w₁).bind fun released w₂ _ => ?_
    cases released with
    | some failure => exact (own_inward (calm_degraded _ _).inward w₂).mono fun _ _ _ => trivial
    | none =>
      refine (own_remove hknows.name (stays_zero leaseID w₂)).bind fun removed w₃ _ => ?_
      cases removed with
      | some failure => exact (own_inward (calm_degraded _ _).inward w₃).mono fun _ _ _ => trivial
      | none => exact (own_inward calm_reportRetirements.inward w₃).bind fun _ _ _ => trivial

theorem cleanupJITGenerationFailure_own (hname : retirement.runnerName = runnerName leaseID) (generationErr : Err) :
    Safe (Own s I leaseID) (s.cleanupJITGenerationFailure retirement generationErr) (fun _ _ => True) w := by
  have hfind : Safe (Own s I leaseID) (ask (.getRunnerByName retirement.runnerName)) (fun _ _ => True) w :=
    own_ask trivial hname fun _ _ _ _ _ _ _ => trivial
  refine hfind.bind fun found w₁ _ => ?_
  match found with
  | .error failure => trivial
  | .ok none =>
    refine (own_remove hname (stays_zero leaseID w₁)).bind fun removed w₂ _ => ?_
    cases removed with
    | some failure => trivial
    | none =>
      refine (own_inward calm_reportRetirements.inward w₂).bind fun _ w₃ _ => ?_
      exact (own_skip rfl w₃).bind fun _ _ _ => trivial
  | .ok (some runner) =>
    refine (identityCheck_own _ _ w₁).bind fun mismatch w₂ _ => ?_
    cases mismatch with
    | some failure => trivial
    | none =>
      have hname' : ({ retirement with runnerID := runner.id } : RetirementEntry).runnerName = runnerName leaseID := hname
      refine (own_put hname' (stays_zero leaseID w₂) fun hid => absurd rfl hid).bind fun failure w₃ hresult => ?_
      obtain ⟨_, _, hknows⟩ := hresult
      cases failure with
      | some failure => trivial
      | none => exact (finishRetirement_own _ false (hknows rfl).1 (stays_zero leaseID w₃)).bind fun _ _ _ => trivial

theorem cleanupListedWorkers_own (hlease : retirement.leaseID = leaseID) (launchErr : Err) (partialWorker : Option Worker)
    (hknows : Knows leaseID retirement w) :
    Safe (Own s I leaseID) (s.cleanupListedWorkers retirement launchErr partialWorker) (fun _ _ => True) w := by
  refine (Prog.safe_bind _ _ _ _).mpr (own_ask trivial trivial fun choice listing w₁ w₂ hallowed hexec hdrift => ?_)
  have hknows₂ := hknows.drift ((drift_of_elsewhere rfl hexec).trans hdrift)
  cases listing with
  | error failure => trivial
  | ok workers =>
    have hgenuine : ∀ worker ∈ workers, worker.Genuine I := by
      obtain rfl := World.exec_inventory hexec
      exact hallowed.1.1
    have hloop : Safe (Own s I leaseID) (forEach (s.cleanupListedWorker retirement launchErr partialWorker) workers false)
        (fun r w' => r = (false, none) → Knows leaseID retirement w') w₂ := by
      refine Prog.safe_forEach (fun rest cleaned w' => (∀ worker ∈ rest, worker ∈ workers) ∧
        (cleaned = false → Knows leaseID retirement w')) ?_ ?_ ⟨fun _ => id, fun _ => hknows₂⟩
      · rintro worker rest cleaned w₃ ⟨hrest, hcleaned⟩
        have hrest' : ∀ other ∈ rest, other ∈ workers := fun other hother => hrest other (List.mem_cons_of_mem _ hother)
        unfold Scaler.cleanupListedWorker
        split
        · exact ⟨hrest', hcleaned⟩
        · rename_i hours
          simp only [Bool.or_eq_true, decide_eq_true_eq, not_or, ne_eq, not_not] at hours
          have hname : worker.runnerName = runnerName leaseID := by
            rw [(hgenuine worker (hrest worker List.mem_cons_self)).name, hours.1, hlease]
          refine (retireWorker_own hname true _ 0 (stays_zero leaseID w₃) fun hid => absurd rfl hid).bind fun failure w₄ _ => ?_
          cases failure with
          | some failure => simp
          | none => exact ⟨hrest', by simp⟩
      · rintro cleaned w₃ ⟨-, hcleaned⟩ heq
        exact hcleaned (Prod.mk.inj heq).1
    refine hloop.bind fun result w₃ hknows₃ => ?_
    obtain ⟨cleaned, failed⟩ := result
    cases failed with
    | some failure => cases cleaned <;> trivial
    | none =>
      cases cleaned with
      | true => trivial
      | false =>
        refine (finishRetirement_own _ false (hknows₃ rfl) (stays_zero leaseID w₃)).bind fun finished w₄ _ => ?_
        cases finished with
        | some failure => trivial
        | none => trivial

theorem cleanupAmbiguousLaunch_own (hlease : retirement.leaseID = leaseID) {launchErr : Err}
    (hcarries : ∀ worker ∈ launchErr.asPartialLaunch, worker.id ≠ "" → worker.Carries I leaseID) (hknows : Knows leaseID retirement w)
    (hid : retirement.runnerID ≠ 0) (hpresent : ∃ entry, w.journal.entries.get (runnerName leaseID) = some entry) :
    Safe (Own s I leaseID) (s.cleanupAmbiguousLaunch retirement launchErr) (fun _ _ => True) w := by
  have hnamed : Safe (Own s I leaseID) (s.cleanupPartialWorker launchErr)
      (fun _ w' => Stays leaseID retirement.runnerID w' ∧ w.log <:+ w'.log) w := by
    have hstays : Stays leaseID retirement.runnerID w := fun _ entry hentry => hknows.pending entry hentry hid
    apply own_suffix
    unfold Scaler.cleanupPartialWorker
    split
    · rename_i worker hworker
      obtain ⟨hmem, hne⟩ := Option.filter_eq_some_iff.mp hworker
      have hname := (hcarries worker hmem (by simpa using hne)).name
      refine (retireWorker_own hname true _ 0 hstays fun _ => hpresent).bind fun failure w₁ hstays₁ => ?_
      cases failure with
      | some failure => exact hstays₁
      | none => exact hstays₁
    · exact hstays
  refine hnamed.bind fun failure w₁ hresult => ?_
  obtain ⟨hstays₁, hsuffix₁⟩ := hresult
  cases failure with
  | some failure => trivial
  | none =>
    refine cleanupListedWorkers_own hlease launchErr _ ⟨hknows.name, hknows.shown.suffix hsuffix₁, ?_, fun hzero => absurd hzero hid⟩
    exact fun entry hentry _ => hstays₁ hid entry hentry

theorem failedLaunch_own (hlease : retirement.leaseID = leaseID) {launchErr : Err}
    (hcarries : ∀ worker ∈ launchErr.asPartialLaunch, worker.id ≠ "" → worker.Carries I leaseID) (hknows : Knows leaseID retirement w)
    (hid : retirement.runnerID ≠ 0) (hpresent : ∃ entry, w.journal.entries.get (runnerName leaseID) = some entry) :
    Safe (Own s I leaseID) (s.failedLaunch retirement launchErr) (fun _ _ => True) w := by
  unfold Scaler.failedLaunch
  split
  · refine (cleanupRejectedLaunch_own hknows).bind fun failure w₁ _ => ?_
    cases failure with
    | some failure => trivial
    | none => exact (own_inward calm_reportBudget.inward w₁).bind fun _ _ _ => trivial
  · refine (own_inward (inward_reportWhen _ _) w).bind fun _ w₁ hdrift₁ => ?_
    have hpresent₁ : ∃ entry, w₁.journal.entries.get (runnerName leaseID) = some entry := by
      rw [hdrift₁.journal]
      exact hpresent
    refine (cleanupAmbiguousLaunch_own hlease hcarries (hknows.drift hdrift₁) hid hpresent₁).bind fun failure w₂ _ => ?_
    cases failure with
    | some failure => trivial
    | none => exact (own_inward calm_reportBudget.inward w₂).bind fun _ _ _ => trivial

theorem commitLaunch_own {worker : Worker} (hname : worker.runnerName = runnerName leaseID)
    (hretirement : retirement.runnerName = runnerName leaseID) :
    Safe (Own s I leaseID) (s.commitLaunch retirement worker) (fun _ _ => True) w := by
  unfold Scaler.commitLaunch
  extract_lets worker'
  have hname' : worker'.runnerName = runnerName leaseID := hname
  refine (own_skip rfl w).bind fun adopted w₁ _ => ?_
  cases adopted with
  | some failure =>
    refine (own_skip rfl w₁).bind fun _ w₂ _ => ?_
    refine (retireWorker_own hname' true _ 0 (stays_zero leaseID w₂) fun hid => absurd rfl hid).bind fun cleanupErr w₃ _ => ?_
    exact (own_inward calm_reportBudget.inward w₃).bind fun _ _ _ => trivial
  | none =>
    refine (own_skip rfl w₁).bind fun _ w₂ _ => (own_remove hretirement (stays_zero leaseID w₂)).bind fun removed w₃ _ => ?_
    cases removed with
    | some failure => exact (own_inward (calm_degraded _ _).inward w₃).mono fun _ _ _ => trivial
    | none =>
      refine (own_inward calm_reportRetirements.inward w₃).bind fun _ w₄ _ => (own_inward s.calm_reportState.inward w₄).bind fun _ w₅ _ => ?_
      exact (own_inward calm_reportBudget.inward w₅).bind fun _ w₆ _ => (own_skip rfl w₆).bind fun _ _ _ => trivial

theorem launch_contract {tier : Tier} {lease : Lease} {choice : Choice} {answer : Except Err Worker}
    (hexec : World.exec (.launch tier lease) choice w = some (answer, w')) (hcontract : Contract I (.launch tier lease) choice) :
    (∀ worker, answer = .ok worker → worker.Carries I lease.id) ∧
      ∀ failure, answer = .error failure → ∀ worker ∈ failure.asPartialLaunch, worker.id ≠ "" → worker.Carries I lease.id := by
  obtain ⟨created, rfl, -⟩ := World.exec_launch hexec
  constructor
  · rintro worker rfl
    exact hcontract.2
  · rintro failure rfl
    exact hcontract.2

theorem launchWorker_own {tier : Tier} {jit : JitRunnerConfig} (hlease : retirement.leaseID = leaseID) (hknows : Knows leaseID retirement w)
    (hid : retirement.runnerID ≠ 0) (hpresent : ∃ entry, w.journal.entries.get (runnerName leaseID) = some entry) :
    Safe (Own s I leaseID) (s.launchWorker tier retirement jit) (fun _ _ => True) w := by
  refine (own_skip rfl w).bind fun _ w₁ hdrift₁ => (own_skip rfl w₁).bind fun now w₂ hdrift₂ => ?_
  refine (Prog.safe_bind _ _ _ _).mpr (own_ask trivial trivial fun choice answer w₃ w₄ hallowed hexec hdrift => ?_)
  obtain ⟨hok, herror⟩ := launch_contract hexec hallowed.1
  refine (own_skip rfl w₄).bind fun _ w₅ hdrift₅ => ?_
  have hdrift' := (hdrift₁.trans hdrift₂).trans (((drift_of_elsewhere rfl hexec).trans hdrift).trans hdrift₅)
  cases answer with
  | error failure =>
    refine failedLaunch_own hlease (hlease ▸ herror failure rfl) (hknows.drift hdrift') hid ?_
    rw [hdrift'.journal]
    exact hpresent
  | ok worker => exact commitLaunch_own (hlease ▸ (hok worker rfl).name) hknows.name

theorem registerWorker_own {tier : Tier} (hlease : retirement.leaseID = leaseID) (hname : retirement.runnerName = runnerName leaseID) :
    Safe (Own s I leaseID) (s.registerWorker tier retirement) (fun _ _ => True) w := by
  refine (own_skip rfl w).bind fun generated w₁ _ => ?_
  match generated with
  | .error failure => exact (cleanupJITGenerationFailure_own hname failure).bind fun _ _ _ => trivial
  | .ok none => exact (cleanupJITGenerationFailure_own hname _).bind fun _ _ _ => trivial
  | .ok (some jit) =>
    have hresolve : Safe (Own s I leaseID) (Scaler.resolveRegistration retirement.runnerName jit) (fun _ _ => True) w₁ := by
      unfold Scaler.resolveRegistration
      split
      · trivial
      · exact own_ask trivial hname fun _ _ _ _ _ _ _ => trivial
    refine hresolve.bind fun resolved w₂ _ => ?_
    cases resolved with
    | error failure => trivial
    | ok registration =>
      dsimp only
      split
      · exact (own_skip rfl w₂).bind fun _ _ _ => trivial
      · rename_i runner hvalid
        obtain ⟨-, hvalid⟩ := Option.filter_eq_some_iff.mp hvalid
        have hpositive : 1 ≤ runner.id := by
          simp only [Bool.and_eq_true, decide_eq_true_eq] at hvalid
          exact hvalid.1
        have hname' : ({ retirement with runnerID := runner.id } : RetirementEntry).runnerName = runnerName leaseID := hname
        have hne : runner.id ≠ 0 := by omega
        refine (own_put hname' (stays_zero leaseID w₂) fun hid => absurd rfl hid).bind fun failure w₃ hresult => ?_
        obtain ⟨_, _, hknows₃⟩ := hresult
        cases failure with
        | some failure => exact (own_inward (calm_degraded _ _).inward w₃).mono fun _ _ _ => trivial
        | none => exact launchWorker_own hlease (hknows₃ rfl).1 hne (hknows₃ rfl).2

theorem admittedWorker_own (route : ScaleSetRoute) (tier : Tier) :
    Safe (Own s I leaseID) (s.admittedWorker route tier leaseID) (fun _ _ => True) w := by
  have hfind : Safe (Own s I leaseID) (ask (.getRunnerByName (runnerName leaseID))) (fun _ _ => True) w :=
    own_ask trivial rfl fun _ _ _ _ _ _ _ => trivial
  refine hfind.bind fun existing w₁ _ => ?_
  match existing with
  | .error failure => exact (own_skip rfl w₁).bind fun _ _ _ => trivial
  | .ok (some _) => exact (own_skip rfl w₁).bind fun _ _ _ => trivial
  | .ok none =>
    refine (own_skip rfl w₁).bind fun now w₂ _ => ?_
    have hname : (Scaler.launchIntent route leaseID now).runnerName = runnerName leaseID := rfl
    refine (own_put hname (stays_zero leaseID w₂) fun hid => absurd rfl hid).bind fun failure w₃ _ => ?_
    cases failure with
    | some failure =>
      refine (own_skip rfl w₃).bind fun _ w₄ _ => (own_skip rfl w₄).bind fun now w₅ _ => ?_
      exact (own_skip rfl w₅).bind fun _ _ _ => trivial
    | none => exact (own_inward calm_reportRetirements.inward w₃).bind fun _ w₄ _ => registerWorker_own rfl rfl

theorem startWorker_own (s : Scaler) (route : ScaleSetRoute) (spare : Bool) :
    Safe (Own s I leaseID) (s.startWorker route spare leaseID) (fun _ _ => True) w := by
  refine (own_skip rfl w).bind fun now w₁ _ => (own_skip rfl w₁).bind fun reserved w₂ _ => ?_
  match reserved with
  | .error failure => exact (own_inward (calm_degraded _ _).inward w₂).mono fun _ _ _ => trivial
  | .ok (allowed, _) =>
    refine (own_inward calm_reportBudget.inward w₂).bind fun _ w₃ _ => ?_
    split
    · exact admittedWorker_own route _
    · trivial

end Own

theorem lawful : (outline s I).Lawful s.fan World.exec World.fresh where
  inv_step _ hexec _ hinv := inv_of_exec hexec hinv
  env_refl _ := ⟨rfl, rfl⟩
  env_trans h h' := ⟨h'.journal.trans h.journal, h'.log.trans h.log⟩
  drift_of_env := Env.drift
  drift_trans := Drift.trans
  drift_of_foreign := by
    rintro key key' op w answer w' hne hmine - ⟨choice, -, hexec, -⟩
    exact drift_of_mine hne hmine hexec
  closed_drift _ _ _ := trivial
  aim_env _ _ _ := trivial
  aim_step _ _ _ _ := trivial
  aim_pool _ _ _ := trivial
  pool_start _ _ := trivial
  pool_spawn _ _ _ _ _ := trivial
  pool_env _ _ _ := trivial
  pool_step _ _ _ _ _ _ := trivial
  pool_finish _ _ _ _ _ _ := trivial
  thread _ _ _ _ _ := (startWorker_own s _ _).mono fun _ _ _ => ⟨trivial, trivial⟩

/-! ### Rules outside of launches -/

section Alone

variable {s I} {w w' : World}

theorem alone_all {α : Type} {p : Script α} (h : All (elsewhere · = true) p) (w : World) :
    Safe (Alone s I) p (fun _ w' => ∀ leaseID, Drift leaseID w w') w := by
  refine h.safe (fun w' => ∀ leaseID, Drift leaseID w w') (fun leaseID => Drift.refl w) (fun op w' hop _ => ⟨guard_of_elsewhere hop w', trivial⟩) ?_
  rintro op w₁ answer w₂ w₃ hop hdrift ⟨choice, -, hexec, -⟩ ⟨henv, -⟩ leaseID
  exact ((hdrift leaseID).trans (drift_of_elsewhere hop hexec)).trans henv.drift

theorem alone_skip {op : Call} (h : elsewhere op = true) (w : World) :
    Safe (Alone s I) (ask op) (fun _ w' => ∀ leaseID, Drift leaseID w w') w :=
  alone_all (p := ask op) ⟨h, fun _ => trivial⟩ w

theorem alone_inward {α : Type} {p : Script α} (h : Inward p) (w : World) :
    Safe (Alone s I) p (fun _ w' => ∀ leaseID, Drift leaseID w w') w := alone_all (h.mono fun _ => elsewhere_of_inward) w

theorem alone_own {α : Type} {p : Script α} {leaseID : String} {post : α → World → Prop} (h : Safe (Own s I leaseID) p post w) :
    Safe (Alone s I) p (fun a w' => post a w' ∧ ∀ other, other ≠ leaseID → Drift other w w') w :=
  Outline.alone_of_own (lawful s I) (fun _ _ _ _ => trivial) h

theorem retireWorker_alone (worker : Worker) (providerPresent : Bool) (disposition : BudgetDisposition) (stoppedAt : Int) :
    Safe (Alone s I) (s.retireWorker worker providerPresent disposition stoppedAt) (fun _ _ => True) w := by
  by_cases hmanaged : managedRunnerName worker.runnerName = true
  · obtain ⟨leaseID, hname⟩ := exists_runnerName hmanaged
    refine (alone_own (retireWorker_own hname providerPresent disposition stoppedAt (stays_zero leaseID w) fun hid => absurd rfl hid)).mono ?_
    exact fun _ _ _ => trivial
  · refine (alone_skip rfl w).bind fun now w₁ _ => ?_
    have hput : Safe (Alone s I) (ask (.put (s.retirementOf worker disposition stoppedAt now))) (fun answer _ => answer ≠ none) w₁ := by
      refine Prog.safe_perform ⟨trivial, trivial⟩ fun answer w₂ hstep w₃ _ hnone => ?_
      obtain ⟨choice, -, hexec, -⟩ := hstep
      obtain ⟨disk, hanswer, rfl⟩ := World.exec_put hexec
      have hrefused : (w₁.journal.put (s.retirementOf worker disposition stoppedAt now) disk).1 ≠ none := by
        unfold RetirementQueue.put validateRetirementEntry
        have hname : (s.retirementOf worker disposition stoppedAt now).runnerName = worker.runnerName := rfl
        simp [hname, hmanaged]
      exact hrefused (hanswer.trans hnone)
    refine hput.bind fun failure w₂ hfailure => ?_
    cases failure with
    | none => exact absurd rfl hfailure
    | some failure => exact (alone_inward (calm_degraded _ _).inward w₂).mono fun _ _ _ => trivial

theorem finishPendingRetirement_own {leaseID : String} {retirement : RetirementEntry} (workers : List Worker) (u : Unit)
    (hknows : Knows leaseID retirement w) :
    Safe (Own s I leaseID) (s.finishPendingRetirement workers u retirement) (fun _ _ => True) w := by
  refine (own_settling (Scaler.settling_pendingWorker _ retirement) w).bind fun worker w₁ hdrift₁ => ?_
  refine (identityCheck_own _ _ w₁).bind fun mismatch w₂ hresult => ?_
  obtain ⟨_, hdrift₂⟩ := hresult
  cases mismatch with
  | some failure => trivial
  | none =>
    exact (finishRetirement_own worker _ (hknows.drift (hdrift₁.trans hdrift₂)) (stays_zero leaseID w₂)).bind fun _ _ _ => trivial

/-- Every entry that is read is known until its turn comes: the entries before it have other names. -/
theorem finishPendingRetirements_alone (workers : List Worker) :
    Safe (Alone s I) (s.finishPendingRetirements workers) (fun _ _ => True) w := by
  unfold Scaler.finishPendingRetirements
  cases Scaler.duplicateName workers [] with
  | some name => trivial
  | none =>
    have hread : Safe (Alone s I) (ask .retirements) (fun entries w' => (entries.map RetirementEntry.runnerName).Nodup ∧
        ∀ entry ∈ entries, ∃ leaseID, Knows leaseID entry w') w := by
      refine Prog.safe_perform ⟨trivial, trivial⟩ fun answer w₁ hstep w₂ hrely => ?_
      obtain ⟨choice, -, hexec, hinv, -⟩ := hstep
      have hlog := World.exec_log hexec
      have hjournal : w₁.journal = w.journal := (World.exec_sameBut hexec).journal (by simp [Call.part])
      have hanswer : answer = w.journal.all := by
        obtain ⟨w₀, heffect, -⟩ := World.exec_eq_some_iff.mp hexec
        simp only [World.effect, Option.some.injEq, Prod.mk.injEq] at heffect
        exact heffect.1.symm
      refine ⟨hanswer ▸ w.journal.all_nodup, fun entry hentry => ?_⟩
      have hmem : entry ∈ w.journal.entries.rows := RetirementQueue.mem_all.mp (hanswer ▸ hentry)
      obtain ⟨leaseID, hname⟩ := exists_runnerName (RetirementQueue.validate_eq_none_iff.mp (hinv entry hmem)).1
      have hget : w₁.journal.entries.get (runnerName leaseID) = some entry := by
        rw [hjournal, ← hname]
        exact Table.get_of_mem hmem
      refine ⟨leaseID, Knows.drift ⟨hname, Or.inr ⟨answer, ?_, hentry⟩, fun other hother _ => ?_, fun _ => ⟨entry, hget⟩⟩ hrely.1.drift⟩
      · rw [hlog]
        exact List.mem_cons_self
      · rw [Option.some.inj (hother.symm.trans hget)]
    refine hread.bind fun entries w₁ hresult => ?_
    obtain ⟨hnodup, hknows⟩ := hresult
    have hloop : Safe (Alone s I) (forEach (s.finishPendingRetirement workers) entries ()) (fun _ _ => True) w₁ := ?_
    · exact hloop.bind fun _ _ _ => trivial
    refine Prog.safe_forEach (fun rest _ w' => (rest.map RetirementEntry.runnerName).Nodup ∧
      ∀ entry ∈ rest, ∃ leaseID, Knows leaseID entry w') ?_ (fun _ _ _ => trivial) ⟨hnodup, hknows⟩
    rintro entry rest u w₂ ⟨hnodup, hknows⟩
    obtain ⟨leaseID, hentry⟩ := hknows entry List.mem_cons_self
    rw [List.map_cons, List.nodup_cons] at hnodup
    refine (alone_own (finishPendingRetirement_own workers u hentry)).mono ?_
    rintro ⟨u', failure⟩ w₃ ⟨-, hdrift⟩
    cases failure with
    | some failure => trivial
    | none =>
      refine ⟨hnodup.2, fun other hother => ?_⟩
      obtain ⟨leaseID', hknows'⟩ := hknows other (List.mem_cons_of_mem _ hother)
      refine ⟨leaseID', hknows'.drift (hdrift leaseID' fun heq => hnodup.1 ?_)⟩
      rw [hentry.name, ← heq, ← hknows'.name]
      exact List.mem_map_of_mem hother

theorem walk : s.Walk fun {_} p => ∀ w, Safe (Alone s I) p (fun _ _ => True) w where
  closed := Prog.closed_safe _
  outer _ hop w := (alone_skip (elsewhere_of_outer hop) w).mono fun _ _ _ => trivial
  retireWorker worker providerPresent disposition stoppedAt _ := retireWorker_alone worker providerPresent disposition stoppedAt
  finishPendingRetirements workers _ := finishPendingRetirements_alone workers

theorem handle_main (event : ListenerEvent) (w : World) : Safe (Main s I) (s.handle event) (fun _ _ => True) w := by
  have hlift : ∀ {α : Type} {p : Script α} {w : World}, Safe (Alone s I) p (fun _ _ => True) w → Safe (Main s I) (lift p) (fun _ _ => True) w :=
    fun h => ((outline s I).safe_lift s.fan World.exec).mpr h
  apply Scaler.handle_rule (P := fun _ => True)
  · exact fun hinward _ => hlift ((alone_inward hinward _).mono fun _ _ _ => trivial)
  · exact fun _ => ⟨⟨trivial, fun _ => trivial⟩, fun _ _ _ _ _ => trivial⟩
  · exact fun _ => hlift (walk.reconcile _)
  · trivial
  · exact fun name _ => hlift (walk.all (s.outer_handleJobStarted name) w)
  · exact fun name finishTime _ => hlift (walk.handleJobCompleted name finishTime w)

end Alone

/-! ### The controller -/

/-- The steps whose calls the provider answers by its contract, and in which GitHub reports no registration without an id. -/
def Trusted (c : Config) (label : Label) : Prop := ∀ made ∈ c.made label, Contract I made.1 made.2 ∧ Identified made.1 made.2

instance (c : Config) (label : Label) : Decidable (Trusted I c label) :=
  inferInstanceAs (Decidable (∀ made ∈ c.made label, Contract I made.1 made.2 ∧ Identified made.1 made.2))

section Run

variable {s I} {c₀ c c' : Config} {past : List Config} {label : Label} {w w' : World}

theorem env_of_change (w : World) (change : EnvChange) : Env w (w.change change) := by
  cases change <;> exact ⟨rfl, rfl⟩

theorem load_of_boot {disk : Disk} (h : s.boot disk w = some w') :
    RetirementQueue.load w.journal.file = .ok w'.journal ∧ w'.log = .booted :: w.log := by
  unfold Scaler.boot World.ledger at h
  dsimp only at h
  split at h
  · rename_i hload
    simp only [Option.some.injEq] at h
    subst h
    exact ⟨hload, rfl⟩
  · simp at h

theorem sound : (outline s I).Sound s (Trusted I) fun _ _ _ => True where
  lawful := lawful s I
  allowed hok hmade := hok _ hmade
  env := by
    intro c change _ hinv
    have henv := env_of_change c.world change
    exact ⟨henv, fun entry hentry => hinv entry (henv.journal ▸ hentry)⟩
  boot := by
    intro c disk w' _ _ _ hboot
    refine ⟨RetirementQueue.load_valid (load_of_boot hboot).1, trivial, fun w'' _ _ => (walk.recover w'').mono fun _ _ _ => ?_⟩
    exact ⟨fun _ _ => trivial, trivial⟩
  deliver := by
    intro c event _ hinv _ _
    exact ⟨hinv, trivial, fun w' _ _ => (handle_main event w').mono fun _ _ _ => ⟨fun _ _ => trivial, trivial⟩⟩

/-- The journal's file held an entry with the name, the id and the scale set in one of the states. -/
def Recorded (name : String) (id scaleSetID : Int) (states : List Config) : Prop :=
  ∃ c ∈ states, ∃ entry ∈ c.world.journal.file, entry.runnerName = name ∧ entry.runnerID = id ∧ entry.runnerScaleSetID = scaleSetID

variable {name : String} {entry : RetirementEntry} {choice : Choice}

theorem Recorded.later {id scaleSetID : Int} {states : List Config} (h : Recorded name id scaleSetID states) (c : Config) :
    Recorded name id scaleSetID (c :: states) := by
  obtain ⟨c₁, hc₁, hentry⟩ := h
  exact ⟨c₁, List.mem_cons_of_mem c hc₁, hentry⟩

theorem recorded_of_mem_file {states : List Config} (hc : c ∈ states) (hentry : entry ∈ c.world.journal.file) :
    Recorded entry.runnerName entry.runnerID entry.runnerScaleSetID states := ⟨c, hc, entry, hentry, rfl, rfl, rfl⟩

/-- What the log and the memory of a process show of the journal was on file. -/
structure Backed (past : List Config) (c : Config) : Prop where
  rows : ∀ entry ∈ c.world.journal.entries.rows, Recorded entry.runnerName entry.runnerID entry.runnerScaleSetID (c :: past)
  shown : ∀ entry, Shown entry c.world.log → entry.runnerID ≠ 0 →
    Recorded entry.runnerName entry.runnerID entry.runnerScaleSetID (c :: past)
  consistent : c.world.journal.Consistent

theorem Backed.same (h : Backed past c) (hjournal : c'.world.journal = c.world.journal)
    (hshown : ∀ entry, Shown entry c'.world.log → Shown entry c.world.log) : Backed (c :: past) c' where
  rows entry hentry := (h.rows entry (hjournal ▸ hentry)).later c'
  shown entry hentry hid := (h.shown entry (hshown entry hentry) hid).later c'
  consistent := hjournal ▸ h.consistent

theorem shown_of_call {op : Call} {answer : op.Ans} {log : List LogEntry} (h : Shown entry (.call op answer :: log)) :
    Shown entry log ∨ LogEntry.call op answer = .call (.put entry) (none : Option Err) ∨
      ∃ entries : List RetirementEntry, LogEntry.call op answer = .call .retirements entries ∧ entry ∈ entries := by
  rcases h with hput | ⟨entries, hread, hentry⟩
  · rcases List.mem_cons.mp hput with heq | hold
    · exact Or.inr (Or.inl heq.symm)
    · exact Or.inl (Or.inl hold)
  · rcases List.mem_cons.mp hread with heq | hold
    · exact Or.inr (Or.inr ⟨entries, heq.symm, hentry⟩)
    · exact Or.inl (Or.inr ⟨entries, hold, hentry⟩)

theorem retirements_of_exec {entries : List RetirementEntry} (hexec : World.exec .retirements choice w = some (entries, w')) :
    entries = w.journal.all := by
  obtain ⟨w₁, heffect, -⟩ := World.exec_eq_some_iff.mp hexec
  simp only [World.effect, Option.some.injEq, Prod.mk.injEq] at heffect
  exact heffect.1.symm

theorem Backed.call {op : Call} {answer : op.Ans} (h : Backed past c)
    (hexec : World.exec op choice c.world = some (answer, c'.world)) : Backed (c :: past) c' := by
  refine ⟨?_, ?_, ?_⟩
  · intro entry hentry
    rcases World.journal_of_exec hexec with ⟨new, disk, -, hjournal⟩ | ⟨name, disk, -, hjournal⟩ | hjournal
    · have hmem : entry ∈ c.world.journal.entries.rows ∨ entry ∈ c'.world.journal.file := by
        rw [hjournal] at hentry ⊢
        rcases c.world.journal.put_cases new disk with ⟨failure, hput⟩ | ⟨stored, hput, -⟩ <;> rw [hput] at hentry ⊢
        · exact Or.inl hentry
        · exact RetirementQueue.mem_persist hentry
      rcases hmem with hold | hfile
      · exact (h.rows entry hold).later c'
      · exact recorded_of_mem_file List.mem_cons_self hfile
    · rw [hjournal] at hentry
      exact (h.rows entry (RetirementQueue.mem_of_mem_remove hentry)).later c'
    · exact (h.rows entry (hjournal ▸ hentry)).later c'
  · intro entry hentry hid
    rw [World.exec_log hexec] at hentry
    rcases shown_of_call hentry with hold | hput | ⟨entries, hread, hmem⟩
    · exact (h.shown entry hold hid).later c'
    · injection hput with hop hanswer
      subst hop
      obtain rfl := eq_of_heq hanswer
      obtain ⟨disk, hput, hworld⟩ := World.exec_put hexec
      obtain ⟨pending, -, hfile, hname, hscale, hbound⟩ := RetirementQueue.bound_of_put (Prod.ext hput rfl)
      exact ⟨c', List.mem_cons_self, pending, by rw [hworld]; exact hfile, hname, hbound hid, hscale⟩
    · injection hread with hop hanswer
      subst hop
      obtain rfl := eq_of_heq hanswer
      rw [retirements_of_exec hexec] at hmem
      exact (h.rows entry (RetirementQueue.mem_all.mp hmem)).later c'
  · rcases World.journal_of_exec hexec with ⟨new, disk, -, hjournal⟩ | ⟨name, disk, -, hjournal⟩ | hjournal <;> rw [hjournal]
    · exact h.consistent.put new disk
    · exact h.consistent.remove name disk
    · exact h.consistent

theorem Backed.step (h : Backed past c) (hstep : s.step label c = some c') : Backed (c :: past) c' := by
  rcases Scaler.step_world hstep with ⟨change, -, hworld⟩ | ⟨disk, -, hboot⟩ | ⟨event, -, hworld⟩ | hworld | ⟨op, choice, answer, -, hexec⟩
  · have henv := env_of_change c.world change
    rw [← hworld] at henv
    exact h.same henv.journal fun entry hentry => henv.log ▸ hentry
  · obtain ⟨hload, hlog⟩ := load_of_boot hboot
    refine ⟨fun entry hentry => ?_, fun entry hentry hid => ?_, RetirementQueue.consistent_load hload⟩
    · exact recorded_of_mem_file (List.mem_cons_of_mem _ List.mem_cons_self) ((RetirementQueue.load_rows hload).mp hentry)
    · refine (h.shown entry ?_ hid).later c'
      rw [hlog] at hentry
      simpa [Shown] using hentry
  · refine h.same (by rw [hworld]; rfl) fun entry hentry => ?_
    rw [hworld] at hentry
    simpa [Shown, World.record] using hentry
  · exact h.same (by rw [hworld]) fun entry hentry => hworld ▸ hentry
  · exact h.call hexec

theorem backed_of_trace {ok : Config → Label → Prop} {limit window clock : Int} {fleet : List Worker}
    (h : Trace s ok (s.initial limit window clock fleet) past c) : Backed past c := by
  induction h with
  | start =>
    refine ⟨?_, ?_, ?_⟩ <;> simp [Scaler.initial, Shown, RetirementQueue.Consistent, Table.empty]
  | step _ _ hstep ih => exact ih.step hstep

theorem runnerID_of_step {next : RetirementEntry} (hbacked : Backed past c) (hstep : s.step label c = some c')
    (hentry : c.world.journal.entries.get name = some entry) (hbound : entry.runnerID ≠ 0)
    (hnext : c'.world.journal.entries.get name = some next) : next.runnerID = entry.runnerID := by
  have hkeeps : RetirementQueue.KeepsIDs c.world.journal.entries c'.world.journal.entries := by
    rcases Scaler.step_world hstep with ⟨change, -, hworld⟩ | ⟨disk, -, hboot⟩ | ⟨event, -, hworld⟩ | hworld | ⟨op, choice, answer, -, hexec⟩
    · rw [hworld, (env_of_change c.world change).journal]
      exact RetirementQueue.keepsIDs_refl _
    · exact hbacked.consistent.keepsIDs_load (load_of_boot hboot).1
    · rw [hworld]
      exact RetirementQueue.keepsIDs_refl _
    · rw [hworld]
      exact RetirementQueue.keepsIDs_refl _
    · rcases World.journal_of_exec hexec with ⟨new, disk, -, hjournal⟩ | ⟨name, disk, -, hjournal⟩ | hjournal <;> rw [hjournal]
      · exact RetirementQueue.keepsIDs_put_entries _ _ _
      · exact RetirementQueue.keepsIDs_remove_entries _ _ _
      · exact RetirementQueue.keepsIDs_refl _
  refine hkeeps entry (Table.mem_of_get hentry) hbound next (Table.mem_of_get hnext) ?_
  rw [show next.runnerName = _ from Table.key_of_get hnext, show entry.runnerName = _ from Table.key_of_get hentry]

theorem runnerID_of_trace {ok : Config → Label → Prop} {limit window clock : Int} {fleet : List Worker} {between : List Config}
    {next : RetirementEntry} (h : Trace s ok (s.initial limit window clock fleet) (between ++ c :: past) c')
    (hpending : ∀ c₁ ∈ between, (c₁.world.journal.entries.get name).isSome = true)
    (hentry : c.world.journal.entries.get name = some entry) (hbound : entry.runnerID ≠ 0)
    (hnext : c'.world.journal.entries.get name = some next) : next.runnerID = entry.runnerID := by
  induction between generalizing c' next with
  | nil =>
    cases h with
    | step h _ hstep => exact runnerID_of_step (backed_of_trace h) hstep hentry hbound hnext
  | cons b rest ih =>
    cases h with
    | step h _ hstep =>
      obtain ⟨middle, hmiddle⟩ := Option.isSome_iff_exists.mp (hpending b List.mem_cons_self)
      have hsame := ih h (fun c₁ hc₁ => hpending c₁ (List.mem_cons_of_mem _ hc₁)) hmiddle
      rw [← hsame]
      exact runnerID_of_step (backed_of_trace h) hstep hmiddle (hsame ▸ hbound) hnext

/-- The id is recorded for the name under a scale set of this controller, GitHub has just returned that registration, and the pending entry, if any, is bound to the id. -/
structure Proven (s : Scaler) (past : List Config) (c : Config) (name : String) (id : Int) : Prop where
  recorded : ∃ scaleSetID runner, s.servesScaleSet scaleSetID = true ∧ Recorded name id scaleSetID (c :: past) ∧
    lastAnswer name c.world.log = some (.ok (some runner)) ∧ runner.name = name ∧ runner.id = id ∧
    (runner.runnerScaleSetID = 0 ∨ runner.runnerScaleSetID = scaleSetID)
  pending : ∀ entry, c.world.journal.entries.get name = some entry → entry.runnerID = id

theorem proven_of_warranted {id : Int} (hbacked : Backed past c) (h : Warranted s name id c.world) : Proven s past c name id := by
  obtain ⟨⟨entry, hshown, hname, hid, hserves, runner, hanswer, hrunner, hrunnerID, hscale⟩, hbound, hpending⟩ := h
  refine ⟨⟨entry.runnerScaleSetID, runner, hserves, ?_, hanswer, hrunner, hrunnerID, hscale⟩, hpending⟩
  rw [← hname, ← hid]
  exact hbacked.shown entry hshown (hid ▸ hbound)

end Run

def refusal : List Label :=
  Demo.recovery ++ Demo.launching ++
    Demo.threads [(0, .launch (.error (.capacity "limit" 0 (.text "full"))) none), (1, .runner (.ok (some Demo.registration)))]

def Answered (I : Identity) (c : Config) (label : Label) : Prop := ∀ made ∈ c.made label, Contract I made.1 made.2

instance (I : Identity) (c : Config) (label : Label) : Decidable (Answered I c label) :=
  inferInstanceAs (Decidable (∀ made ∈ c.made label, Contract I made.1 made.2))

def unidentified : RunnerReference := { id := 0, name := runnerName Demo.lease }

/-- The generation of the runner times out, and GitHub twice reports the registration without an id. -/
def ambiguousGeneration : List Label :=
  Demo.recovery ++ .deliver (.desiredRunnerCount false 1) :: Demo.calls [(1, Demo.listed []), (1, .order []), (14, .none)] ++
    [.move .enter, .move (.spawn Demo.lease)] ++
    Demo.threads [(1, Demo.written), (3, .runner (.ok none)), (1, Demo.written), (4, .jit (.error (.transient (.text "timeout"))) none),
      (0, .runner (.ok (some unidentified))), (0, Demo.written), (0, .runner (.ok (some unidentified))), (0, Demo.written)]

/-- GitHub keeps the runner, and to the next handler it reports the registration with its id. -/
def identifiedLater : List Label :=
  Demo.threads [(0, .none)] ++ [.move (.finish 0), .move .leave, .finish] ++
    .deliver (.desiredRunnerCount false 1) :: Demo.calls [(1, Demo.listed []), (3, .runner (.ok (some Demo.registration))), (0, Demo.written)]

end Registration

end RunnerYard
