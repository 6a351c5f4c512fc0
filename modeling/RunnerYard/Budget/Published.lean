import RunnerYard.Budget.Validate
import RunnerYard.Controller.Status

/-!
# The published budget and admission

`snapshot` counts the entries itself; `reserve` expires and prunes first and counts what is left. The two differ on one kind of entry only: a lease that is still active though its reserved time ran out before the window began. `snapshot` counts it as reserved, `reserve` forgets it.
-/

namespace RunnerYard

namespace UsageEntry

/-- An active lease whose reserved time ended before `cutoff`. -/
def lapsed (cutoff : Int) (entry : UsageEntry) : Bool := entry.active && decide (entry.endsAt < cutoff)

theorem seconds_expire (now : Int) (entry : UsageEntry) : (entry.expire now).seconds = entry.seconds := by
  unfold expire
  split <;> rfl

theorem stale_expire {now cutoff : Int} (hcutoff : cutoff ≤ now) (entry : UsageEntry) :
    (entry.expire now).stale cutoff = (entry.stale cutoff || entry.lapsed cutoff) := by
  cases hactive : entry.active with
  | false =>
    have hsame : entry.expire now = entry := by simp [expire, hactive]
    simp [hsame, lapsed, hactive]
  | true =>
    by_cases hends : entry.endsAt ≤ now
    · simp [expire, stale, lapsed, hactive, hends]
    · have hlater : ¬entry.endsAt < cutoff := by omega
      simp [expire, stale, lapsed, hactive, hends, hlater]

end UsageEntry

namespace UsageBudget

variable {b : UsageBudget} {now : Int}

/-- The limits `newUsageBudget` asks for. -/
structure Configured (b : UsageBudget) : Prop where
  limit : 0 < b.limit
  window : 0 < b.window
  reservation : 0 < b.reservation
  reservation_le : b.reservation ≤ b.limit

theorem sum_split (p : UsageEntry → Bool) (l : List UsageEntry) :
    ((l.filter p).map (·.seconds)).sum + ((l.filter fun entry => !p entry).map (·.seconds)).sum = (l.map (·.seconds)).sum := by
  induction l with
  | nil => rfl
  | cons entry rest ih =>
    cases hp : p entry <;> simp only [List.filter_cons, hp, Bool.not_true, Bool.not_false, Bool.false_eq_true, if_true, if_false,
      List.map_cons, List.sum_cons] <;> omega

theorem snapshot_counted (b : UsageBudget) (now : Int) : (b.snapshot now).usedSeconds + (b.snapshot now).reservedSeconds =
    ((b.entries.filter fun entry => !entry.stale (now - b.window)).map (·.seconds)).sum := by
  have hsplit := sum_split (·.active) (b.entries.filter fun entry => !entry.stale (now - b.window))
  simp only [snapshot]
  omega

theorem counted_eq_used_add_lapsed (hwindow : 0 < b.window) (now : Int) :
    (b.snapshot now).usedSeconds + (b.snapshot now).reservedSeconds =
      (b.prune now).usedSeconds + ((b.entries.filter fun entry => entry.lapsed (now - b.window)).map (·.seconds)).sum := by
  rw [snapshot_counted]
  simp only [usedSeconds, prune]
  induction b.entries with
  | nil => rfl
  | cons entry rest ih =>
    have hstale := UsageEntry.stale_expire (show now - b.window ≤ now by omega) entry
    have hseconds := entry.seconds_expire now
    cases hs : entry.stale (now - b.window) <;> cases hl : entry.lapsed (now - b.window) <;>
      simp only [hs, hl, Bool.or_false, Bool.or_true] at hstale <;>
      simp only [List.map_cons, List.filter_cons, hs, hl, hstale, Bool.not_true, Bool.not_false, Bool.false_eq_true, if_true, if_false,
        List.sum_cons, hseconds] <;> first
        | omega
        | simp [UsageEntry.stale, UsageEntry.lapsed] at hs hl; rw [hl.1] at hs; cases hs.1

theorem refusalReason_eq_empty_iff (hreservation : 0 < b.reservation) : (b.snapshot now).refusalReason = "" ↔
    (b.snapshot now).usedSeconds + (b.snapshot now).reservedSeconds + Duration.seconds b.reservation ≤ Duration.seconds b.limit := by
  have hpos := Duration.seconds_pos hreservation
  simp only [snapshot]
  split
  · rename_i hrefused
    simp only [decide_eq_true_eq] at hrefused
    simp only [String.reduceEq, false_iff]
    omega
  · rename_i hadmitted
    simp only [decide_eq_true_eq, not_lt] at hadmitted
    simp only [true_iff]
    omega

theorem reserve_admits_iff {leaseID : String} (hfresh : ∀ entry ∈ b.entries, entry.leaseID ≠ leaseID) :
    (b.reserve leaseID now b.reservation none).result = .ok (true, 0) ↔
      (b.prune now).usedSeconds + Duration.seconds b.reservation ≤ Duration.seconds b.limit ∧
        (b.prune now).usedSeconds ≤ Duration.seconds b.limit := by
  have hlease : ((b.prune now).entries.any fun entry => entry.leaseID = leaseID) = false := by
    rw [List.any_eq_false]
    intro entry hentry
    obtain ⟨before, hbefore, rfl⟩ := mem_prune hentry
    have hid : (before.expire now).leaseID = before.leaseID := by
      unfold UsageEntry.expire
      split <;> rfl
    simpa [hid] using hfresh before hbefore
  have hsame : (b.prune now).reservation = b.reservation ∧ (b.prune now).limit = b.limit := ⟨rfl, rfl⟩
  unfold reserve
  simp only [hlease, Bool.false_eq_true, if_false, hsame.1, ne_eq, not_true_eq_false]
  split
  · rename_i hadmits
    simp only [admits, hsame.2, Bool.not_eq_true', Bool.or_eq_false_iff, decide_eq_false_iff_not, not_lt] at hadmits
    simp only [true_iff]
    omega
  · rename_i hrefuses
    simp only [admits, hsame.2, Bool.not_eq_true', Bool.or_eq_false_iff, decide_eq_false_iff_not, not_lt] at hrefuses
    simp only [Except.ok.injEq, Prod.mk.injEq, Bool.false_eq_true, false_and, false_iff]
    omega

end UsageBudget

open UsageBudget

/-- What is published agrees with what is admitted exactly while no active lease has lapsed before the window. -/
theorem published_budget_agrees_iff {b : UsageBudget} (hconfig : b.Configured) (hvalid : b.validate = none) (now : Int) :
    ((∀ leaseID, (∀ entry ∈ b.entries, entry.leaseID ≠ leaseID) →
        ((b.snapshot now).refusalReason = "" ↔ (b.reserve leaseID now b.reservation none).result = .ok (true, 0))) ∧
      (b.snapshot now).usedSeconds + (b.snapshot now).reservedSeconds = (b.prune now).usedSeconds) ↔
      ∀ entry ∈ b.entries, entry.active = true → now - b.window ≤ entry.endsAt := by
  have hcounted := counted_eq_used_add_lapsed hconfig.window now
  have hentries := ((validate_eq_none_iff b).mp hvalid).1.each
  have hpos := Duration.seconds_pos hconfig.reservation
  constructor
  · rintro ⟨-, hequal⟩ entry hentry hactive
    by_contra hlapsed
    -- a lapsed lease counts at least one second
    have hmem : entry ∈ b.entries.filter fun entry => entry.lapsed (now - b.window) :=
      List.mem_filter.mpr ⟨hentry, by simp [UsageEntry.lapsed, hactive]; omega⟩
    have hnonneg : ∀ x ∈ (b.entries.filter fun entry => entry.lapsed (now - b.window)).map (·.seconds), 0 ≤ x := by
      intro x hx
      obtain ⟨e, he, rfl⟩ := List.mem_map.mp hx
      exact (by decide : (0 : Int) ≤ 1).trans (hentries e (List.mem_filter.mp he).1).one_le
    have hsum : entry.seconds ≤ ((b.entries.filter fun entry => entry.lapsed (now - b.window)).map (·.seconds)).sum :=
      List.single_le_sum hnonneg entry.seconds (List.mem_map_of_mem hmem)
    have hentry' := (hentries entry hentry).one_le
    omega
  · intro hnone
    have hempty : (b.entries.filter fun entry => entry.lapsed (now - b.window)) = [] := by
      rw [List.filter_eq_nil_iff]
      intro entry hentry hlapsed
      simp only [UsageEntry.lapsed, Bool.and_eq_true, decide_eq_true_eq] at hlapsed
      have hlater := hnone entry hentry hlapsed.1
      omega
    rw [hempty] at hcounted
    simp only [List.map_nil, List.sum_nil, add_zero] at hcounted
    refine ⟨fun leaseID hfresh => ?_, hcounted⟩
    rw [refusalReason_eq_empty_iff hconfig.reservation, reserve_admits_iff hfresh, hcounted]
    constructor
    · intro h
      omega
    · exact And.left

namespace Demo

/-- Room for one lease, which was reserved in the second hour and never settled. -/
def unsettled : UsageBudget where
  limit := Duration.hour
  window := 24 * Duration.hour
  reservation := Duration.hour
  entries := [{ leaseID := "a", chargedAt := Duration.hour, startedAt := Duration.hour, seconds := 3600, active := true }]

end Demo

theorem published_budget_agrees_within_window :
    (Demo.unsettled.snapshot (3 * Duration.hour)).usedSeconds + (Demo.unsettled.snapshot (3 * Duration.hour)).reservedSeconds =
      (Demo.unsettled.prune (3 * Duration.hour)).usedSeconds :=
  ((published_budget_agrees_iff ⟨by decide, by decide, by decide, by decide⟩ (by decide) (3 * Duration.hour)).mpr (by decide)).2

/-- A day after the reserved time ran out, the budget is published as exhausted while the next lease is admitted. -/
theorem published_exhausted_but_admitted : Demo.unsettled.Configured ∧ Demo.unsettled.validate = none ∧
    (Demo.unsettled.snapshot (30 * Duration.hour)).refusalReason = "usage_budget_exhausted" ∧
    (Demo.unsettled.snapshot (30 * Duration.hour)).reservedSeconds = 3600 ∧ (Demo.unsettled.prune (30 * Duration.hour)).usedSeconds = 0 ∧
    (Demo.unsettled.reserve "b" (30 * Duration.hour) Duration.hour none).result = .ok (true, 0) :=
  ⟨⟨by decide, by decide, by decide, by decide⟩, by decide, by decide, by decide, by decide, by decide⟩

end RunnerYard
