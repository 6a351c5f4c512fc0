import RunnerYard.Budget.Window

/-!
# A ledger whose write fails

Each call of the ledger edits the entries in memory, writes them, and undoes its edit if the write fails. Five of the six undo all of it; what may remain of `reserve` is the pruning it began with, which the next call would make anyway. `adopt` of a lease without an entry appends one and does not take it back.
-/

namespace RunnerYard

open UsageBudget

/-- The calls that write, with their arguments. `now` of `adopt` is the clock it reads. -/
inductive LedgerWrite where
  | reserve (leaseID : String) (now maximum : Int)
  | settleAt (leaseID : String) (stoppedAt now : Int)
  | forfeit (leaseID : String) (now : Int)
  | release (leaseID : String)
  | adopt (leaseID : String) (startedAt now : Int)
  | reconcile (activeLeases : List String) (now : Int)
  deriving DecidableEq, Repr

namespace LedgerWrite

def time : LedgerWrite → Option Int
  | reserve _ now _ | settleAt _ _ now | forfeit _ now | adopt _ _ now | reconcile _ now => some now
  | release _ => none

def failure {α : Type} : Except Err α → Option Err
  | .error err => some err
  | .ok _ => none

/-- The error of a call, what it leaves in memory, and what it handed to `persist`. -/
def run (b : UsageBudget) (disk : Option String) : LedgerWrite → LedgerUpdate (Option Err)
  | reserve leaseID now maximum =>
    let update := b.reserve leaseID now maximum disk
    { result := failure update.result, budget := update.budget, saved := update.saved, dropped := update.dropped }
  | settleAt leaseID stoppedAt now => b.settleAt leaseID stoppedAt now disk
  | forfeit leaseID now => b.forfeit leaseID now disk
  | release leaseID => b.release leaseID disk
  | adopt leaseID startedAt now => b.adopt leaseID startedAt now disk
  | reconcile activeLeases now => b.reconcile activeLeases now disk

/-- The call enters a lease that has no entry and no reservation. -/
def enters (b : UsageBudget) : LedgerWrite → Bool
  | adopt leaseID _ _ => leaseID ≠ "" && b.entries.all (·.leaseID ≠ leaseID)
  | _ => false

def Unchanged (b : UsageBudget) (call : LedgerWrite) (after : UsageBudget) : Prop :=
  after = b ∨ ∃ now ∈ call.time, after = b.prune now

end LedgerWrite

variable {b : UsageBudget} {failure : String}

theorem LedgerWrite.Unchanged.later {call : LedgerWrite} {after : UsageBudget} (h : call.Unchanged b after) {t : Int}
    (ht : ∀ now ∈ call.time, now ≤ t) : after.prune t = b.prune t := by
  rcases h with rfl | ⟨now, hnow, rfl⟩
  · rfl
  · exact prune_prune (ht now hnow)

theorem prune_length_le (b : UsageBudget) (now : Int) : (b.prune now).entries.length ≤ b.entries.length := by
  refine (List.length_filter_le _ _).trans ?_
  rw [List.length_map]

/-! ### What each call leaves behind when its write fails -/

variable {leaseID : String}

theorem reserve_undone {now maximum : Int} (h : (b.reserve leaseID now maximum (some failure)).saved.isSome = true) :
    (b.reserve leaseID now maximum (some failure)).result = .error (.disk failure) ∧
      (b.reserve leaseID now maximum (some failure)).budget = b.prune now := by
  unfold reserve at h ⊢
  dsimp only at h ⊢
  split at h
  · cases h
  rename_i hfresh
  split at h
  · cases h
  rename_i hmaximum
  split at h
  · rename_i hadmits
    rw [if_neg hfresh, if_neg hmaximum, if_pos hadmits]
    exact ⟨rfl, rfl⟩
  · cases h

theorem settleAt_undone {stoppedAt now : Int} (h : (b.settleAt leaseID stoppedAt now (some failure)).saved.isSome = true) :
    (b.settleAt leaseID stoppedAt now (some failure)).result = some (.disk failure) ∧
      (b.settleAt leaseID stoppedAt now (some failure)).budget = b := by
  unfold settleAt at h ⊢
  split at h
  · rename_i hactive
    rw [if_pos hactive]
    exact ⟨rfl, rfl⟩
  · cases h

theorem forfeit_undone {now : Int} (h : (b.forfeit leaseID now (some failure)).saved.isSome = true) :
    (b.forfeit leaseID now (some failure)).result = some (.disk failure) ∧ (b.forfeit leaseID now (some failure)).budget = b := by
  unfold forfeit at h ⊢
  split at h
  · rename_i hactive
    rw [if_pos hactive]
    exact ⟨rfl, rfl⟩
  · cases h

theorem release_undone (h : (b.release leaseID (some failure)).saved.isSome = true) :
    (b.release leaseID (some failure)).result = some (.disk failure) ∧ (b.release leaseID (some failure)).budget = b := by
  unfold release at h ⊢
  split at h
  · rename_i hactive
    rw [if_pos hactive]
    exact ⟨rfl, rfl⟩
  · cases h

theorem reconcile_undone {activeLeases : List String} {now : Int} (h : (b.reconcile activeLeases now (some failure)).saved.isSome = true) :
    (b.reconcile activeLeases now (some failure)).result = some (.disk failure) ∧
      (b.reconcile activeLeases now (some failure)).budget = b := by
  unfold reconcile at h ⊢
  dsimp only at h ⊢
  split at h
  · rename_i hchanged
    rw [if_pos hchanged]
    exact ⟨rfl, rfl⟩
  · cases h

theorem adopt_undone {startedAt now : Int} (h : (b.adopt leaseID startedAt now (some failure)).saved.isSome = true) :
    (b.adopt leaseID startedAt now (some failure)).result = some (.disk failure) ∧
      ((∃ entry ∈ b.entries, entry.leaseID = leaseID) ∧ (b.adopt leaseID startedAt now (some failure)).budget = b ∨
        (LedgerWrite.adopt leaseID startedAt now).enters b = true ∧
          ∃ entry, (b.adopt leaseID startedAt now (some failure)).budget = { b with entries := b.entries ++ [entry] }) := by
  unfold adopt at h ⊢
  dsimp only at h ⊢
  split at h
  · cases h
  rename_i hlease
  rw [if_neg hlease]
  split at h
  · rename_i entry hfind
    have hentry : entry ∈ b.entries ∧ entry.leaseID = leaseID := ⟨List.mem_of_find?_eq_some hfind, by simpa using List.find?_some hfind⟩
    split at h
    · cases h
    · rename_i hconfirmed
      rw [if_neg hconfirmed]
      exact ⟨rfl, Or.inl ⟨⟨entry, hentry⟩, rfl⟩⟩
  · rename_i hfind
    refine ⟨rfl, Or.inr ⟨?_, _, rfl⟩⟩
    simp only [LedgerWrite.enters, Bool.and_eq_true, decide_eq_true_eq, List.all_eq_true]
    exact ⟨hlease, fun entry hentry => by simpa using List.find?_eq_none.mp hfind entry hentry⟩

/-- A call whose write fails leaves the ledger as it was up to pruning, unless it adopts a lease that has no entry. -/
theorem failed_write_undone_iff (b : UsageBudget) (call : LedgerWrite) (failure : String)
    (hwrites : (call.run b (some failure)).saved.isSome = true) :
    (call.run b (some failure)).result = some (.disk failure) ∧
      ((call.Unchanged b (call.run b (some failure)).budget ∧
        ∀ t, (∀ now ∈ call.time, now ≤ t) → (call.run b (some failure)).budget.prune t = b.prune t) ↔ call.enters b = false) := by
  have hundone : ∀ {after : UsageBudget}, call.Unchanged b after → call.enters b = false →
      ((call.Unchanged b after ∧ ∀ t, (∀ now ∈ call.time, now ≤ t) → after.prune t = b.prune t) ↔ call.enters b = false) :=
    fun hafter hcall => ⟨fun _ => hcall, fun _ => ⟨hafter, fun t ht => hafter.later ht⟩⟩
  cases call with
  | reserve leaseID now maximum =>
    obtain ⟨hresult, hbudget⟩ := reserve_undone hwrites
    refine ⟨?_, hundone (Or.inr ⟨now, rfl, hbudget⟩) rfl⟩
    simp only [LedgerWrite.run, hresult]
    rfl
  | settleAt leaseID stoppedAt now =>
    obtain ⟨hresult, hbudget⟩ := settleAt_undone hwrites
    exact ⟨hresult, hundone (Or.inl hbudget) rfl⟩
  | forfeit leaseID now =>
    obtain ⟨hresult, hbudget⟩ := forfeit_undone hwrites
    exact ⟨hresult, hundone (Or.inl hbudget) rfl⟩
  | release leaseID =>
    obtain ⟨hresult, hbudget⟩ := release_undone hwrites
    exact ⟨hresult, hundone (Or.inl hbudget) rfl⟩
  | reconcile activeLeases now =>
    obtain ⟨hresult, hbudget⟩ := reconcile_undone hwrites
    exact ⟨hresult, hundone (Or.inl hbudget) rfl⟩
  | adopt leaseID startedAt now =>
    obtain ⟨hresult, ⟨⟨entry, hentry, hid⟩, hbudget⟩ | ⟨henters, entry, hbudget⟩⟩ := adopt_undone hwrites
    · refine ⟨hresult, hundone (Or.inl hbudget) ?_⟩
      by_contra henters
      simp only [Bool.not_eq_false, LedgerWrite.enters, Bool.and_eq_true, List.all_eq_true, decide_eq_true_eq] at henters
      exact henters.2 entry hentry hid
    · refine ⟨hresult, ⟨fun hkept => ?_, fun hnot => by rw [henters] at hnot; cases hnot⟩⟩
      -- the appended entry makes the ledger longer than it was
      have hlength : ((LedgerWrite.adopt leaseID startedAt now).run b (some failure)).budget.entries.length = b.entries.length + 1 := by
        show (b.adopt leaseID startedAt now (some failure)).budget.entries.length = _
        rw [hbudget]
        simp
      rcases hkept.1 with hsame | ⟨t, -, hsame⟩
      · rw [hsame] at hlength
        omega
      · rw [hsame] at hlength
        have hshorter := prune_length_le b t
        omega

namespace Demo

def ledger : UsageBudget where
  limit := 10 * Duration.hour
  window := 24 * Duration.hour
  reservation := Duration.hour
  entries := [{ leaseID := "a", chargedAt := Duration.hour, startedAt := Duration.hour, seconds := 3600, active := true, confirmed := true }]

end Demo

/-- A second lease whose reservation cannot be written. -/
theorem failed_write_undone_when_full_disk :
    ((LedgerWrite.reserve "b" (2 * Duration.hour) Duration.hour).run Demo.ledger (some "no space left on device")).result =
      some (.disk "no space left on device") ∧
    (LedgerWrite.reserve "b" (2 * Duration.hour) Duration.hour).Unchanged Demo.ledger
      ((LedgerWrite.reserve "b" (2 * Duration.hour) Duration.hour).run Demo.ledger (some "no space left on device")).budget := by
  have h := failed_write_undone_iff Demo.ledger (.reserve "b" (2 * Duration.hour) Duration.hour) "no space left on device" (by decide)
  exact ⟨h.1, (h.2.mpr rfl).1⟩

/-- The adoption of a worker without an entry fails, and its full reservation stays charged in memory. -/
theorem failed_adoption_stays_charged :
    ((LedgerWrite.adopt "b" Duration.hour (2 * Duration.hour)).run Demo.ledger (some "no space left on device")).result =
      some (.disk "no space left on device") ∧
    ((LedgerWrite.adopt "b" Duration.hour (2 * Duration.hour)).run Demo.ledger (some "no space left on device")).budget.usedSeconds =
      Demo.ledger.usedSeconds + 3600 ∧
    ¬(LedgerWrite.adopt "b" Duration.hour (2 * Duration.hour)).Unchanged Demo.ledger
      ((LedgerWrite.adopt "b" Duration.hour (2 * Duration.hour)).run Demo.ledger (some "no space left on device")).budget := by
  refine ⟨by decide, by decide, ?_⟩
  rintro (h | ⟨now, hnow, h⟩)
  · revert h
    decide
  · cases hnow
    revert h
    decide

end RunnerYard
