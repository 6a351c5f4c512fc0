import RunnerYard.Budget.Coverage
import RunnerYard.Budget.Validate

/-!
# Waiting for the announced time

A refused lease is told when to ask again: when the oldest completed charge leaves the window, or a whole window from now if none is completed. Until then no charge leaves. Active entries may expire in between, but then they are charged at their end, which lies after the refusal, and so stay in the window for longer than the wait.
-/

namespace RunnerYard

namespace UsageEntry

/-- No prune up to `t` drops the entry: it is charged within the window that ends at `t`, or runs still and ends within it. -/
def StaysUntil (window t : Int) (entry : UsageEntry) : Prop :=
  if entry.active then t - window ≤ entry.endsAt else t - window ≤ entry.chargedAt

variable {window t now : Int} {entry : UsageEntry}

theorem StaysUntil.expire (h : entry.StaysUntil window t) (now : Int) : (entry.expire now).StaysUntil window t := by
  unfold UsageEntry.expire
  split
  · rename_i hends
    rw [Bool.and_eq_true] at hends
    rw [StaysUntil, if_pos hends.1] at h
    rw [StaysUntil, if_neg Bool.false_ne_true]
    exact h
  · exact h

theorem StaysUntil.not_stale (h : entry.StaysUntil window t) (hnow : now ≤ t) : entry.stale (now - window) = false := by
  unfold stale
  cases hactive : entry.active with
  | true => rfl
  | false =>
    rw [StaysUntil, hactive, if_neg Bool.false_ne_true] at h
    rw [Bool.not_false, Bool.true_and, decide_eq_false_iff_not]
    omega

end UsageEntry

namespace UsageBudget

variable {b : UsageBudget} {now t : Int}

/-- Full, and with no charge that a prune up to `t` drops. -/
structure Waits (t : Int) (b : UsageBudget) : Prop where
  stays : ∀ entry ∈ b.entries, entry.StaysUntil b.window t
  full : b.admits (Duration.seconds b.reservation) = false

theorem Waits.prune_entries (h : b.Waits t) (hnow : now ≤ t) : (b.prune now).entries = b.entries.map (·.expire now) := by
  apply List.filter_eq_self.mpr
  intro entry hentry
  obtain ⟨before, hbefore, rfl⟩ := List.mem_map.mp hentry
  rw [((h.stays before hbefore).expire now).not_stale hnow]
  rfl

theorem Waits.prune (h : b.Waits t) (hnow : now ≤ t) : (b.prune now).Waits t where
  stays := by
    rw [h.prune_entries hnow]
    intro entry hentry
    obtain ⟨before, hbefore, rfl⟩ := List.mem_map.mp hentry
    exact (h.stays before hbefore).expire now
  full := by
    have hused : (b.prune now).usedSeconds = b.usedSeconds := by
      rw [usedSeconds, h.prune_entries hnow, List.map_map, usedSeconds]
      apply congrArg List.sum
      apply List.map_congr_left
      intro entry _
      exact expire_seconds now entry
    rw [admits, hused]
    exact h.full

structure Attempt where
  leaseID : String
  now : Int
  maximum : Int
  disk : Option String

def attempt (b : UsageBudget) (a : Attempt) : LedgerUpdate (Except Err (Bool × Int)) := b.reserve a.leaseID a.now a.maximum a.disk

def attempts (b : UsageBudget) (calls : List Attempt) : UsageBudget := calls.foldl (fun b a => (b.attempt a).budget) b

/-- A full ledger admits nothing. -/
theorem Waits.reserve (h : b.Waits t) {a : Attempt} (hnow : a.now ≤ t) : (b.attempt a).budget = b.prune a.now ∧
    ((∀ entry ∈ b.entries, entry.leaseID ≠ a.leaseID) → Duration.seconds a.maximum = Duration.seconds b.reservation →
      ∃ next, (b.attempt a).result = .ok (false, next)) := by
  have hfull := (h.prune hnow).full
  unfold attempt UsageBudget.reserve
  dsimp only
  split
  · rename_i hheld
    refine ⟨rfl, fun hfresh _ => ?_⟩
    obtain ⟨entry, hentry, hlease⟩ := List.any_eq_true.mp hheld
    rw [h.prune_entries hnow] at hentry
    obtain ⟨before, hbefore, rfl⟩ := List.mem_map.mp hentry
    rw [expire_leaseID, decide_eq_true_eq] at hlease
    exact absurd hlease (hfresh before hbefore)
  · split
    · rename_i hlength
      exact ⟨rfl, fun _ hsame => absurd hsame hlength⟩
    · rename_i hlength
      rw [ne_eq, not_not] at hlength
      rw [hlength, hfull, if_neg Bool.false_ne_true]
      exact ⟨rfl, fun _ _ => ⟨_, rfl⟩⟩

theorem Waits.attempts (h : b.Waits t) {calls : List Attempt} (hcalls : ∀ a ∈ calls, a.now ≤ t) :
    (b.attempts calls).Waits t ∧ (b.attempts calls).entries.map (·.leaseID) = b.entries.map (·.leaseID) ∧
      (b.attempts calls).reservation = b.reservation := by
  induction calls generalizing b with
  | nil => exact ⟨h, rfl, rfl⟩
  | cons a calls ih =>
    have hnow : a.now ≤ t := hcalls a List.mem_cons_self
    have hbudget : (b.attempt a).budget = b.prune a.now := (h.reserve hnow).1
    rw [UsageBudget.attempts, List.foldl_cons, hbudget]
    obtain ⟨hwaits, hleases, hreservation⟩ := ih (h.prune hnow) fun other hother => hcalls other (List.mem_cons_of_mem a hother)
    refine ⟨hwaits, hleases.trans ?_, hreservation⟩
    rw [h.prune_entries hnow]
    exact map_expire_leaseID a.now b.entries

theorem foldl_min_le (first : Int) (rest : List Int) : rest.foldl min first ≤ first ∧ ∀ x ∈ rest, rest.foldl min first ≤ x := by
  induction rest generalizing first with
  | nil => exact ⟨le_refl first, fun x hx => absurd hx List.not_mem_nil⟩
  | cons y rest ih =>
    obtain ⟨hfirst, hrest⟩ := ih (min first y)
    rw [List.foldl_cons]
    refine ⟨hfirst.trans (min_le_left first y), fun x hx => ?_⟩
    rcases List.mem_cons.mp hx with rfl | hx
    · exact hfirst.trans (min_le_right first x)
    · exact hrest x hx

theorem nextAvailable_spec (hdated : ∀ entry ∈ b.entries, entry.active = false → entry.chargedAt ≤ now) :
    (∀ entry ∈ b.entries, entry.active = false → b.nextAvailable now - b.window ≤ entry.chargedAt) ∧ b.nextAvailable now - b.window ≤ now := by
  have hmem : ∀ entry ∈ b.entries, entry.active = false → entry.chargedAt ∈ (b.entries.filter fun entry => !entry.active).map (·.chargedAt) := by
    intro entry hentry hactive
    apply List.mem_map_of_mem
    rw [List.mem_filter, hactive]
    exact ⟨hentry, rfl⟩
  unfold nextAvailable
  split
  · rename_i hnone
    refine ⟨fun entry hentry hactive => ?_, by omega⟩
    have hcharged := hmem entry hentry hactive
    rw [hnone] at hcharged
    exact absurd hcharged List.not_mem_nil
  · rename_i first rest hcharges
    obtain ⟨hfirst, hrest⟩ := foldl_min_le first rest
    constructor
    · intro entry hentry hactive
      have hcharged := hmem entry hentry hactive
      rw [hcharges] at hcharged
      have hle : rest.foldl min first ≤ entry.chargedAt := by
        rcases List.mem_cons.mp hcharged with heq | hin
        · exact heq ▸ hfirst
        · exact hrest _ hin
      omega
    · have hcharged : first ∈ (b.entries.filter fun entry => !entry.active).map (·.chargedAt) := by
        rw [hcharges]
        exact List.mem_cons_self
      obtain ⟨entry, hentry, rfl⟩ := List.mem_map.mp hcharged
      obtain ⟨hentry, hactive⟩ := List.mem_filter.mp hentry
      have hnow := hdated entry hentry (by simpa using hactive)
      omega

theorem prune_dated (hdated : ∀ entry ∈ b.entries, entry.chargedAt ≤ now) : ∀ entry ∈ (b.prune now).entries,
    (entry.active = true → now < entry.endsAt) ∧ (entry.active = false → entry.chargedAt ≤ now) := by
  intro entry hentry
  obtain ⟨before, hbefore, rfl⟩ := mem_prune hentry
  unfold UsageEntry.expire
  split
  · rename_i hends
    simp only [Bool.and_eq_true, decide_eq_true_eq] at hends
    exact ⟨fun hactive => absurd hactive Bool.false_ne_true, fun _ => hends.2⟩
  · rename_i hruns
    simp only [Bool.and_eq_true, decide_eq_true_eq, not_and, not_le] at hruns
    exact ⟨hruns, fun _ => hdated before hbefore⟩

theorem waits_of_refused {leaseID : String} {maximum : Int} {disk : Option String} (hdated : ∀ entry ∈ b.entries, entry.chargedAt ≤ now)
    (h : (b.reserve leaseID now maximum disk).result = .ok (false, t)) :
    (b.reserve leaseID now maximum disk).budget = b.prune now ∧ (b.prune now).Waits t ∧ Duration.seconds maximum = Duration.seconds b.reservation := by
  unfold UsageBudget.reserve at h ⊢
  dsimp only at h ⊢
  split at h
  · cases h
  · rename_i hheld
    rw [if_neg hheld]
    split at h
    · cases h
    · rename_i hlength
      rw [ne_eq, not_not] at hlength
      rw [if_neg (not_not.mpr hlength)]
      split at h
      · split at h <;> cases h
      · rename_i hfull
        rw [if_neg hfull]
        rw [Except.ok.injEq, Prod.mk.injEq] at h
        obtain ⟨hcompleted, hnow⟩ := nextAvailable_spec fun entry hentry => (prune_dated hdated entry hentry).2
        refine ⟨rfl, ⟨fun entry hentry => ?_, ?_⟩, hlength⟩
        · rw [← h.2]
          unfold UsageEntry.StaysUntil
          split
          · rename_i hactive
            exact hnow.trans ((prune_dated hdated entry hentry).1 hactive).le
          · rename_i hactive
            exact hcompleted entry hentry (by simpa using hactive)
        · rw [hlength] at hfull
          exact Bool.eq_false_iff.mpr hfull

end UsageBudget

open UsageBudget

/-- A lease refused until `t` is not admitted before, and neither is any other, however often the ledger is asked. -/
theorem refusal_lasts_until_announced {b : UsageBudget} {now t : Int} (hdated : ∀ entry ∈ b.entries, entry.chargedAt ≤ now)
    {leaseID : String} {maximum : Int} {disk : Option String} (hrefused : (b.reserve leaseID now maximum disk).result = .ok (false, t))
    {calls : List Attempt} (hcalls : ∀ a ∈ calls, a.now ≤ t) {last : Attempt} (hlast : last.now ≤ t)
    (hfresh : ∀ entry ∈ b.entries, entry.leaseID ≠ last.leaseID) (hmaximum : last.maximum = maximum) :
    ∃ next, (((b.reserve leaseID now maximum disk).budget.attempts calls).attempt last).result = .ok (false, next) := by
  obtain ⟨hbudget, hwaits, hlength⟩ := waits_of_refused hdated hrefused
  rw [hbudget]
  obtain ⟨hwaits', hleases, hreservation⟩ := hwaits.attempts hcalls
  apply (hwaits'.reserve hlast).2
  · intro entry hentry hlease
    have hheld : entry.leaseID ∈ (b.prune now).entries.map (·.leaseID) := hleases ▸ List.mem_map_of_mem hentry
    obtain ⟨pruned, hpruned, heq⟩ := List.mem_map.mp hheld
    obtain ⟨before, hbefore, rfl⟩ := mem_prune hpruned
    rw [expire_leaseID, hlease] at heq
    exact hfresh before hbefore heq
  · rw [hmaximum, hlength, hreservation]
    rfl

namespace Demo

/-- An hour is used up, and an hour is reserved by a lease that runs out in half an hour. -/
def full : UsageBudget where
  limit := 2 * Duration.hour
  window := 24 * Duration.hour
  reservation := Duration.hour
  entries := [
    { leaseID := "done", chargedAt := 2 * Duration.hour, startedAt := Duration.hour, seconds := 3600, active := false, confirmed := true },
    { leaseID := "runs", chargedAt := 90 * Duration.minute, startedAt := 90 * Duration.minute, seconds := 3600, active := true, confirmed := true }]

end Demo

/-- At two hours the ledger is full until the window passes the first charge. -/
theorem refusal_lasts_until_announced_when_full :
    Demo.full.validate = none ∧ (Demo.full.reserve "next" (2 * Duration.hour) Duration.hour none).result = .ok (false, 26 * Duration.hour) ∧
      ∃ next, (((Demo.full.reserve "next" (2 * Duration.hour) Duration.hour none).budget.attempts
        [{ leaseID := "next", now := 20 * Duration.hour, maximum := Duration.hour, disk := none }]).attempt
          { leaseID := "other", now := 26 * Duration.hour, maximum := Duration.hour, disk := none }).result = .ok (false, next) :=
  ⟨by decide, by decide, refusal_lasts_until_announced (t := 26 * Duration.hour) (by decide) (by decide) (by decide) (by decide) (by decide) rfl⟩

end RunnerYard
