import RunnerYard.Controller.System

/-!
# What a call can change

One lemma for each part of the world: only the calls of the object that owns it change it. `exec` adds the call's entry to the log and nothing else. The rows of local state and of the journal change in few ways, which are named once.
-/

namespace RunnerYard

namespace World

variable {op : Call} {choice : Choice} {w w' : World} {answer : op.Ans}

theorem exec_eq_some_iff :
    exec op choice w = some (answer, w') ↔ ∃ w₁, effect op choice w = some (answer, w₁) ∧ w' = w₁.record (.call op answer) := by
  simp only [exec, Option.map_eq_some_iff, Prod.exists, Prod.mk.injEq]
  constructor
  · rintro ⟨a, w₁, h, rfl, rfl⟩
    exact ⟨w₁, h, rfl⟩
  · rintro ⟨w₁, h, rfl⟩
    exact ⟨answer, w₁, h, rfl, rfl⟩

theorem exec_of_effect {made : op.Ans × World} (heffect : effect op choice w = some made) (hexec : exec op choice w = some (answer, w')) :
    answer = made.1 ∧ w' = made.2.record (.call op made.1) := by
  obtain ⟨w₁, h, rfl⟩ := exec_eq_some_iff.mp hexec
  obtain rfl := Option.some.inj (heffect.symm.trans h)
  exact ⟨rfl, rfl⟩

theorem onDisk_eq_some_iff {α : Type} {f : Disk → α} {x : α} :
    onDisk f choice = some x ↔ ∃ disk, choice = .disk disk ∧ f disk = x := by
  cases choice <;> simp [onDisk]

theorem exec_inventory {site : Site} {answer : Except Err (List Worker)} (h : exec (.inventory site) choice w = some (answer, w')) :
    choice = .inventory answer := by
  obtain ⟨w₁, heffect, -⟩ := exec_eq_some_iff.mp h
  cases choice <;> cases heffect
  rfl

theorem exec_launch {tier : Tier} {lease : Lease} {answer : Except Err Worker} (h : exec (.launch tier lease) choice w = some (answer, w')) :
    ∃ created, choice = .launch answer created ∧ w' = { w with fleet := created.toList ++ w.fleet }.record (.call (.launch tier lease) answer) := by
  obtain ⟨w₁, heffect, rfl⟩ := exec_eq_some_iff.mp h
  cases choice <;> cases heffect
  exact ⟨_, rfl, rfl⟩

theorem exec_put {entry : RetirementEntry} {answer : Option Err} (h : exec (.put entry) choice w = some (answer, w')) :
    ∃ disk, (w.journal.put entry disk).1 = answer ∧
      w' = { w with journal := (w.journal.put entry disk).2 }.record (.call (.put entry) answer) := by
  obtain ⟨w₁, heffect, rfl⟩ := exec_eq_some_iff.mp h
  obtain ⟨disk, -, hput⟩ := onDisk_eq_some_iff.mp heffect
  cases hput
  exact ⟨disk, rfl, rfl⟩

end World

inductive Part where
  | clock
  | ledger
  | journal
  | state
  | gate
  | reporter
  | fleet
  | registrations
  | none
  deriving DecidableEq, Repr

def Call.part : Call → Part
  | reserve _ _ _ => .ledger
  | settleAt _ _ _ => .ledger
  | forfeit _ _ => .ledger
  | release _ => .ledger
  | adopt _ _ => .ledger
  | reconcileLeases _ _ => .ledger
  | put _ => .journal
  | remove _ => .journal
  | state _ => .state
  | closeGate _ _ _ _ _ => .gate
  | clearGate => .gate
  | report _ => .reporter
  | launch _ _ => .fleet
  | destroy _ => .fleet
  | generateJitRunnerConfig _ _ => .registrations
  | removeRunner _ => .registrations
  | _ => .none

structure World.SameBut (part : Part) (w w' : World) : Prop where
  clock : w'.clock = w.clock
  ledger : part ≠ .ledger → w'.budget = w.budget ∧ w'.budgetFile = w.budgetFile ∧ w'.archive = w.archive
  journal : part ≠ .journal → w'.journal = w.journal
  state : part ≠ .state → w'.state = w.state
  gate : part ≠ .gate → w'.gate = w.gate
  reporter : part ≠ .reporter → w'.reporter = w.reporter
  fleet : part ≠ .fleet → w'.fleet = w.fleet
  registrations : part ≠ .registrations → w'.registrations = w.registrations

theorem World.SameBut.refl (part : Part) (w : World) : World.SameBut part w w :=
  ⟨rfl, fun _ => ⟨rfl, rfl, rfl⟩, fun _ => rfl, fun _ => rfl, fun _ => rfl, fun _ => rfl, fun _ => rfl, fun _ => rfl⟩

variable {choice : Choice} {s s' : WorkerState}

theorem World.effect_sameBut_log {op : Call} {w w' : World} {answer : op.Ans}
    (h : effect op choice w = some (answer, w')) : SameBut op.part w w' ∧ w'.log = w.log := by
  cases op with
  | state op =>
    simp only [effect, Option.map_eq_some_iff, Prod.mk.injEq] at h
    obtain ⟨r, -, -, rfl⟩ := h
    exact ⟨by constructor <;> simp [Call.part], rfl⟩
  | reserve _ _ _ | settleAt _ _ _ | forfeit _ _ | release _ | adopt _ _ | reconcileLeases _ _ =>
    simp only [effect, onDisk_eq_some_iff, ledger, Prod.mk.injEq] at h
    obtain ⟨disk, -, -, rfl⟩ := h
    exact ⟨by constructor <;> simp [Call.part], rfl⟩
  | put _ | remove _ =>
    simp only [effect, onDisk_eq_some_iff, Prod.mk.injEq] at h
    obtain ⟨disk, -, -, rfl⟩ := h
    exact ⟨by constructor <;> simp [Call.part], rfl⟩
  | launch _ _ | generateJitRunnerConfig _ _ =>
    cases choice <;> simp only [effect, Option.some.injEq, Prod.mk.injEq, reduceCtorEq] at h
    obtain ⟨-, rfl⟩ := h
    exact ⟨by constructor <;> simp [Call.part], rfl⟩
  | destroy _ | removeRunner _ =>
    cases choice <;> simp only [effect, Option.some.injEq, Prod.mk.injEq, reduceCtorEq] at h
    obtain ⟨-, rfl⟩ := h
    split <;> exact ⟨by constructor <;> simp [Call.part], rfl⟩
  | inventory _ | spareRoom | getRunnerByName _ =>
    cases choice <;> simp only [effect, Option.some.injEq, Prod.mk.injEq, reduceCtorEq] at h
    obtain ⟨-, rfl⟩ := h
    exact ⟨.refl _ _, rfl⟩
  | closeGate _ _ _ _ _ | clearGate | report _ =>
    simp only [effect, Option.some.injEq, Prod.mk.injEq] at h
    obtain ⟨-, rfl⟩ := h
    exact ⟨by constructor <;> simp [Call.part], rfl⟩
  | now | snapshot _ | retirements | retirementCount | overdue _ _ | gateOpen | capacityAllowance _ _ | note _ =>
    simp only [effect, Option.some.injEq, Prod.mk.injEq] at h
    obtain ⟨-, rfl⟩ := h
    exact ⟨.refl _ _, rfl⟩

namespace World

variable {op : Call} {choice : Choice} {w w' : World} {answer : op.Ans}

theorem effect_sameBut (h : effect op choice w = some (answer, w')) : SameBut op.part w w' := (effect_sameBut_log h).1

theorem exec_sameBut (h : exec op choice w = some (answer, w')) : SameBut op.part w w' := by
  obtain ⟨w₁, heffect, rfl⟩ := exec_eq_some_iff.mp h
  obtain ⟨hclock, hledger, hjournal, hstate, hgate, hreporter, hfleet, hregistrations⟩ := effect_sameBut heffect
  exact ⟨hclock, hledger, hjournal, hstate, hgate, hreporter, hfleet, hregistrations⟩

theorem journal_of_exec (h : exec op choice w = some (answer, w')) :
    (∃ entry disk, op = .put entry ∧ w'.journal = (w.journal.put entry disk).2) ∨
      (∃ name disk, op = .remove name ∧ w'.journal = (w.journal.remove name disk).2) ∨ w'.journal = w.journal := by
  by_cases hpart : op.part = .journal
  · obtain ⟨w₁, heffect, rfl⟩ := exec_eq_some_iff.mp h
    cases op <;> simp only [Call.part, reduceCtorEq] at hpart
    case put entry =>
      obtain ⟨disk, -, hput⟩ := onDisk_eq_some_iff.mp heffect
      cases hput
      exact Or.inl ⟨entry, disk, rfl, rfl⟩
    case remove name =>
      obtain ⟨disk, -, hremoved⟩ := onDisk_eq_some_iff.mp heffect
      cases hremoved
      exact Or.inr (Or.inl ⟨name, disk, rfl, rfl⟩)
  · exact Or.inr (Or.inr ((exec_sameBut h).journal hpart))

theorem exec_log (h : exec op choice w = some (answer, w')) : w'.log = .call op answer :: w.log := by
  obtain ⟨w₁, heffect, rfl⟩ := exec_eq_some_iff.mp h
  exact congrArg (_ :: ·) (effect_sameBut_log heffect).2

end World

/-! ### Local state -/

inductive RecordStep (s : WorkerState) : StateOp → WorkerRecord → Prop
  | kept {op : StateOp} {record : WorkerRecord} : record ∈ s.workers.rows → RecordStep s op record
  | added (worker : Worker) (busy : Bool) : RecordStep s (.add worker busy) { worker, busy, observed := true }
  | adopted (worker : Worker) : RecordStep s (.adopt worker) { worker }
  | started {record : WorkerRecord} : record ∈ s.workers.rows →
      RecordStep s (.markBusy record.name) { record with busy := true, observed := true, missingSince := 0 }
  | missed {record : WorkerRecord} (at_ : Int) : record ∈ s.workers.rows → record.missingSince = 0 →
      RecordStep s (.markMissing record.name at_) { record with missingSince := at_ }
  | seen {record : WorkerRecord} : record ∈ s.workers.rows →
      RecordStep s (.markPresent record.name) { record with missingSince := 0 }

theorem Table.mem_of_mem_put {α κ : Type} [DecidableEq κ] {key : α → κ} {t : Table key} {x y : α} (h : y ∈ (t.put x).rows) :
    y = x ∨ y ∈ t.rows :=
  (Table.mem_put.mp h).imp_right And.left

@[simp] theorem WorkerState.remember_workers (s : WorkerState) (departure : Departure) : (s.remember departure).workers = s.workers := by
  unfold WorkerState.remember
  split <;> rfl

def StateOp.enters : StateOp → Bool
  | add _ _ => true
  | adopt _ => true
  | _ => false

def StateOp.entry : StateOp → Option WorkerRecord
  | add worker busy => some { worker, busy, observed := true }
  | adopt worker => some { worker }
  | _ => none

inductive WorkersStep (s : WorkerState) : StateOp → Table WorkerRecord.name → Prop
  | same {op : StateOp} : WorkersStep s op s.workers
  | entered {op : StateOp} {record : WorkerRecord} (hentry : op.entry = some record) : WorkersStep s op (s.workers.put record)
  | started {name : String} {old : WorkerRecord} (hold : s.workers.get name = some old) :
      WorkersStep s (.markBusy name) (s.workers.put { old with busy := true, observed := true, missingSince := 0 })
  | missed {name : String} {at_ : Int} {old : WorkerRecord} (hold : s.workers.get name = some old) (hzero : old.missingSince = 0) :
      WorkersStep s (.markMissing name at_) (s.workers.put { old with missingSince := at_ })
  | seen {name : String} {old : WorkerRecord} (hold : s.workers.get name = some old) :
      WorkersStep s (.markPresent name) (s.workers.put { old with missingSince := 0 })
  | removed (name : String) : WorkersStep s (.remove name) (s.workers.erase name)

theorem StateOp.workersStep {op : StateOp} {answer : op.Ans} (h : op.exec choice s = some (answer, s')) : WorkersStep s op s'.workers := by
  cases op with
  | add worker busy | adopt worker =>
    simp only [exec, Option.some.injEq, Prod.mk.injEq] at h
    obtain ⟨-, rfl⟩ := h
    exact .entered rfl
  | markBusy name =>
    simp only [exec, Option.some.injEq, WorkerState.markBusy] at h
    split at h <;> simp only [Prod.mk.injEq] at h <;> obtain ⟨-, rfl⟩ := h
    · exact .started ‹_›
    · exact .same
  | markMissing name at_ =>
    simp only [exec, Option.some.injEq, WorkerState.markMissing] at h
    split at h
    · split at h <;> simp only [Prod.mk.injEq] at h <;> obtain ⟨-, rfl⟩ := h
      · exact .missed ‹_› ‹_›
      · exact .same
    · simp only [Prod.mk.injEq] at h
      obtain ⟨-, rfl⟩ := h
      exact .same
  | markPresent name =>
    simp only [exec, Option.some.injEq, Prod.mk.injEq, WorkerState.markPresent] at h
    obtain ⟨-, rfl⟩ := h
    split
    · split
      · exact .same
      · exact .seen ‹_›
    · exact .same
  | remove name =>
    simp only [exec, Option.some.injEq, Prod.mk.injEq] at h
    obtain ⟨-, rfl⟩ := h
    exact .removed name
  | all | idleByStart _ =>
    cases choice <;> simp only [exec, Option.some.injEq, Prod.mk.injEq, reduceCtorEq] at h
    all_goals first
      | (obtain ⟨-, rfl⟩ := h; exact .same)
      | (split at h
         · simp only [Option.some.injEq, Prod.mk.injEq] at h
           obtain ⟨-, rfl⟩ := h
           exact .same
         · simp at h)
  | markDepartedBusy name =>
    simp only [exec, Option.some.injEq, WorkerState.markDepartedBusy] at h
    split at h <;>
      (simp only [Prod.mk.injEq] at h
       obtain ⟨-, rfl⟩ := h
       exact .same)
  | markDeparted _ _ | markStopped _ _ _ =>
    simp only [exec, Option.some.injEq, Prod.mk.injEq, WorkerState.markDeparted, WorkerState.markStopped] at h
    obtain ⟨-, rfl⟩ := h
    rw [WorkerState.remember_workers]
    exact .same
  | get _ | count | countScaleSet _ | summary | takeOverdue _ | takeDeparted _ | pruneDeparted _ =>
    simp only [exec, Option.some.injEq, Prod.mk.injEq, WorkerState.takeOverdue, WorkerState.takeDeparted, WorkerState.pruneDeparted] at h
    obtain ⟨-, rfl⟩ := h
    exact .same

theorem StateOp.recordStep {op : StateOp} {answer : op.Ans}
    (h : op.exec choice s = some (answer, s')) {record : WorkerRecord} (hrecord : record ∈ s'.workers.rows) :
    RecordStep s op record := by
  have hstep := workersStep h
  generalize s'.workers = workers at hstep hrecord
  cases hstep with
  | same => exact .kept hrecord
  | entered hentry =>
    rcases Table.mem_of_mem_put hrecord with rfl | hold
    · cases op <;> cases hentry
      · exact .added _ _
      · exact .adopted _
    · exact .kept hold
  | started hold =>
    rcases Table.mem_of_mem_put hrecord with rfl | hkept
    · exact Table.key_of_get hold ▸ .started (Table.mem_of_get hold)
    · exact .kept hkept
  | missed hold hzero =>
    rcases Table.mem_of_mem_put hrecord with rfl | hkept
    · exact Table.key_of_get hold ▸ .missed _ (Table.mem_of_get hold) hzero
    · exact .kept hkept
  | seen hold =>
    rcases Table.mem_of_mem_put hrecord with rfl | hkept
    · exact Table.key_of_get hold ▸ .seen (Table.mem_of_get hold)
    · exact .kept hkept
  | removed name => exact .kept (Table.mem_erase.mp hrecord).1

theorem StateOp.countP_le {op : StateOp} {answer : op.Ans} (p : WorkerRecord → Bool)
    (hbusy : ∀ name, op = .markBusy name → ∀ record : WorkerRecord, p { record with busy := true, observed := true, missingSince := 0 } = true →
      p record = true)
    (hmissing : ∀ (record : WorkerRecord) (at_ : Int), p { record with missingSince := at_ } = true → p record = true)
    (h : op.exec choice s = some (answer, s')) : s'.workers.rows.countP p ≤ s.workers.rows.countP p + (op.entry.any p).toNat := by
  have hstep := workersStep h
  generalize s'.workers = workers at hstep
  cases hstep with
  | same => exact Nat.le_add_right _ _
  | entered hentry =>
    rw [hentry]
    exact Table.countP_put_le p _ _
  | started hold =>
    have hname := Table.key_of_get hold
    exact Table.countP_put_of_get hold hname (hbusy _ rfl _)
  | missed hold _ | seen hold =>
    have hname := Table.key_of_get hold
    exact Table.countP_put_of_get hold hname (hmissing _ _)
  | removed name => exact Table.countP_erase_le p _ _

theorem StateOp.count_le {op : StateOp} {answer : op.Ans} (h : op.exec choice s = some (answer, s')) :
    s'.count ≤ s.count + op.enters.toNat := by
  have hcount := StateOp.countP_le (fun _ => true) (fun _ _ _ _ => rfl) (fun _ _ _ => rfl) h
  rw [List.countP_true] at hcount
  cases op <;> exact hcount

theorem StateOp.get_eq_of_about {op : StateOp} {answer : op.Ans}
    (h : op.exec choice s = some (answer, s')) {name : String} (habout : (Call.state op).about ≠ some name) :
    s'.workers.get name = s.workers.get name := by
  have hstep := workersStep h
  generalize s'.workers = workers at hstep
  cases hstep with
  | same => rfl
  | entered hentry =>
    refine Table.get_put_of_ne fun heq => habout ?_
    cases op <;> cases hentry <;> exact congrArg some heq.symm
  | started hold | missed hold _ | seen hold =>
    have hname := Table.key_of_get hold
    exact Table.get_put_of_ne fun heq => habout (congrArg some (heq.trans hname).symm)
  | removed n => exact Table.get_erase_of_ne fun heq => habout (congrArg some heq.symm)

/-! ### The journal -/

namespace RetirementQueue

variable {disk : Disk} {entry : RetirementEntry} {q : RetirementQueue} {name : String}

theorem get_put {q' : RetirementQueue} (h : q.put entry disk = (none, q')) :
    ∃ pending, q'.entries.get entry.runnerName = some pending ∧ pending.leaseID = entry.leaseID ∧
      pending.budgetDisposition = entry.budgetDisposition ∧ pending.runnerScaleSetID = entry.runnerScaleSetID := by
  unfold put at h
  split at h
  · simp at h
  · have hpersist : ∀ entries : Table RetirementEntry.runnerName, q.persist entries disk = (none, q') → q'.entries = entries := by
      intro entries hentries
      unfold persist at hentries
      split at hentries
      · simp only [Prod.mk.injEq, true_and] at hentries
        rw [← hentries]
      · simp at hentries
    split at h
    · rw [hpersist _ h]
      exact ⟨entry, Table.get_put_self _ _, rfl, rfl, rfl⟩
    · rename_i previous _
      split at h
      · simp at h
      · rw [hpersist _ h]
        exact ⟨merged previous entry, Table.get_put_self _ _, rfl, rfl, rfl⟩

theorem mem_put_cases {pending : RetirementEntry}
    (h : pending ∈ (q.put entry disk).2.entries.rows) :
    pending ∈ q.entries.rows ∨
      (pending.runnerName = entry.runnerName ∧ pending.leaseID = entry.leaseID ∧
        pending.budgetDisposition = entry.budgetDisposition ∧ pending.runnerScaleSetID = entry.runnerScaleSetID ∧
        (pending = entry ∨ ∃ previous ∈ q.entries.rows, previous.runnerName = entry.runnerName ∧ refusal previous entry = none ∧
          pending = merged previous entry)) := by
  have hpersist : ∀ entries : Table RetirementEntry.runnerName, pending ∈ (q.persist entries disk).2.entries.rows →
      pending ∈ q.entries.rows ∨ pending ∈ entries.rows := by
    intro entries hmem
    unfold persist at hmem
    split at hmem
    · exact Or.inr hmem
    · exact Or.inl hmem
  unfold put at h
  split at h
  · exact Or.inl h
  · split at h
    · rcases hpersist _ h with h | h
      · exact Or.inl h
      · rcases Table.mem_of_mem_put h with rfl | h
        · exact Or.inr ⟨rfl, rfl, rfl, rfl, Or.inl rfl⟩
        · exact Or.inl h
    · rename_i previous hprevious
      split at h
      · exact Or.inl h
      · rename_i hrefusal
        rcases hpersist _ h with h | h
        · exact Or.inl h
        · rcases Table.mem_of_mem_put h with rfl | h
          · exact Or.inr ⟨rfl, rfl, rfl, rfl, Or.inr ⟨previous, Table.mem_of_get hprevious, Table.key_of_get hprevious, hrefusal, rfl⟩⟩
          · exact Or.inl h

theorem get_put_of_ne
    (hne : name ≠ entry.runnerName) : (q.put entry disk).2.entries.get name = q.entries.get name := by
  have hpersist : ∀ pending : RetirementEntry, pending.runnerName = entry.runnerName →
      (q.persist (q.entries.put pending) disk).2.entries.get name = q.entries.get name := by
    intro pending hpending
    unfold persist
    split
    · exact Table.get_put_of_ne (hpending ▸ hne)
    · rfl
  unfold put
  split
  · rfl
  · split
    · exact hpersist entry rfl
    · split
      · rfl
      · exact hpersist _ rfl

theorem get_put_isSome
    (h : (q.entries.get name).isSome = true) : ((q.put entry disk).2.entries.get name).isSome = true := by
  by_cases hname : name = entry.runnerName
  · have hpersist : ∀ pending : RetirementEntry, pending.runnerName = entry.runnerName →
        ((q.persist (q.entries.put pending) disk).2.entries.get name).isSome = true := by
      intro pending hpending
      unfold persist
      split
      · rw [hname, ← hpending, Table.get_put_self]
        rfl
      · exact h
    unfold put
    split
    · exact h
    · split
      · exact hpersist entry rfl
      · split
        · exact h
        · exact hpersist _ rfl
  · rw [get_put_of_ne hname]
    exact h

theorem get_remove_of_ne {other : String} (hne : other ≠ name) :
    (q.remove name disk).2.entries.get other = q.entries.get other := by
  unfold remove persist
  split
  · split
    · exact Table.get_erase_of_ne hne
    · rfl
  · rfl

theorem mem_of_mem_remove
    (h : entry ∈ (q.remove name disk).2.entries.rows) : entry ∈ q.entries.rows := by
  unfold remove persist at h
  split at h
  · split at h
    · exact (Table.mem_erase.mp h).1
    · exact h
  · exact h

theorem get_remove_self (q : RetirementQueue) (name : String) : (q.remove name .ok).2.entries.get name = none := by
  unfold remove persist
  split
  · exact Table.get_erase_self _ _
  · rename_i hnone
    exact Option.not_isSome_iff_eq_none.mp hnone

def Saved (q : RetirementQueue) : Prop := ∀ entry, entry ∈ q.file ↔ entry ∈ q.entries.rows

theorem Saved.put (h : q.Saved) (entry : RetirementEntry) : (q.put entry .ok).2.Saved := by
  unfold RetirementQueue.put
  split
  · exact h
  · split
    · exact fun _ => Iff.rfl
    · split
      · exact h
      · exact fun _ => Iff.rfl

theorem Saved.remove (h : q.Saved) (name : String) : (q.remove name .ok).2.Saved := by
  unfold RetirementQueue.remove
  split
  · exact fun _ => Iff.rfl
  · exact h

end RetirementQueue

theorem Scaler.boot_state {s : Scaler} {disk : Disk} {w w' : World} (h : s.boot disk w = some w') : w'.state = .empty ∧ w'.log = .booted :: w.log := by
  unfold Scaler.boot World.ledger at h
  dsimp only at h
  split at h
  · rw [Option.some.injEq] at h
    subst h
    exact ⟨rfl, rfl⟩
  · cases h

end RunnerYard
