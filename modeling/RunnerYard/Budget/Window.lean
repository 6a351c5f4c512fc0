import RunnerYard.Budget.Ledger

/-!
# The rolling window holds over the whole admission history

The ledger forgets an entry once the window has passed it, and it rewrites seconds and charge times as leases end. The history below keeps what the ledger forgets, so that the limit can be stated for every lease ever admitted. Two facts carry the proof. A call other than an admission only shrinks charges: it lowers seconds, closes an open interval, or drops an entry. And an entry is forgotten only when its interval lies before every window still to come, so at an admission the seconds that count are those the ledger still holds.
-/

namespace RunnerYard

open UsageBudget

inductive LedgerCall where
  | reserve (leaseID : String) (now : Int)
  | settleAt (leaseID : String) (stoppedAt now : Int)
  | forfeit (leaseID : String) (now : Int)
  | release (leaseID : String) (now : Int)
  | adopt (leaseID : String) (startedAt now : Int)
  | reconcile (activeLeases : List String) (now : Int)
  | reload (now : Int)
  deriving DecidableEq, Repr

def LedgerCall.time : LedgerCall → Int
  | reserve _ now => now
  | settleAt _ _ now => now
  | forfeit _ now => now
  | release _ now => now
  | adopt _ _ now => now
  | reconcile _ now => now
  | reload now => now

/-- A ledger in use: in memory, in its file, and the entries it has forgotten. `clock` is the time of the last call. -/
structure LedgerHistory where
  budget : UsageBudget
  file : List UsageEntry
  past : List UsageEntry
  clock : Int
  deriving DecidableEq, Repr

namespace LedgerHistory

def record {α : Type} (s : LedgerHistory) (u : LedgerUpdate α) (now : Int) : LedgerHistory :=
  { budget := u.budget, file := u.saved.getD s.file, past := s.past ++ u.dropped, clock := now }

def apply (s : LedgerHistory) : LedgerCall → LedgerHistory
  | .reserve leaseID now => s.record (s.budget.reserve leaseID now s.budget.reservation none) now
  | .settleAt leaseID stoppedAt now => s.record (s.budget.settleAt leaseID stoppedAt now none) now
  | .forfeit leaseID now => s.record (s.budget.forfeit leaseID now none) now
  | .release leaseID now => s.record (s.budget.release leaseID none) now
  | .adopt leaseID startedAt now => s.record (s.budget.adopt leaseID startedAt now none) now
  | .reconcile activeLeases now => s.record (s.budget.reconcile activeLeases now none) now
  | .reload now =>
    -- What a reload forgets is read off the ledger in memory: the file may lag it by a pruning, and would forget the same entries once more.
    { s.record (load s.budget.limit s.budget.window s.budget.reservation s.file now none) now with
      past := s.past ++ s.budget.pruned now }

def run (s : LedgerHistory) (calls : List LedgerCall) : LedgerHistory := calls.foldl apply s

/-- The calls a controller makes: the clock does not run back, only active leases are adopted, and a failed reload starts nothing. -/
def Allowed (s : LedgerHistory) (call : LedgerCall) : Prop :=
  s.clock ≤ call.time ∧
    match call with
    | .adopt leaseID _ _ => (s.budget.entries.find? fun entry => entry.leaseID = leaseID).any (·.active) = true
    | .reload now => (load s.budget.limit s.budget.window s.budget.reservation s.file now none).result = none
    | _ => True

instance (s : LedgerHistory) (call : LedgerCall) : Decidable (s.Allowed call) := by
  unfold Allowed
  cases call <;> infer_instance

def AllAllowed : LedgerHistory → List LedgerCall → Prop
  | _, [] => True
  | s, call :: calls => s.Allowed call ∧ AllAllowed (s.apply call) calls

instance (s : LedgerHistory) (calls : List LedgerCall) : Decidable (s.AllAllowed calls) := by
  induction calls generalizing s with
  | nil => exact isTrue trivial
  | cons call calls ih => exact instDecidableAnd

def fresh (limit window reservation clock : Int) : LedgerHistory :=
  { budget := { limit, window, reservation, entries := [] }, file := [], past := [], clock }

def admitted (s : LedgerHistory) : List UsageEntry := s.past ++ s.budget.entries

end LedgerHistory

namespace UsageEntry

/-- The charge interval, open-ended while the entry is active, meets the window that ends at `t`. -/
def meets (window t : Int) (entry : UsageEntry) : Bool :=
  decide (entry.startedAt ≤ t) && (entry.active || decide (t - window < entry.chargedAt))

/-- The seconds an entry counts in the window that ends at `t`. -/
def charge (window t : Int) (entry : UsageEntry) : Int := if entry.meets window t then entry.seconds else 0

structure Shrinks (before after : UsageEntry) : Prop where
  started : after.startedAt = before.startedAt
  nonneg : 0 ≤ after.seconds
  seconds : after.seconds ≤ before.seconds
  closed : after.active = true → before.active = true
  charged : before.active = false → after.chargedAt ≤ before.chargedAt

variable {entry : UsageEntry}

theorem charge_nonneg (h : 0 ≤ entry.seconds) (window t : Int) : 0 ≤ entry.charge window t := by
  unfold charge
  split
  · exact h
  · exact le_rfl

theorem charge_le_seconds (entry : UsageEntry) (h : 0 ≤ entry.seconds) (window t : Int) :
    entry.charge window t ≤ entry.seconds := by
  unfold charge
  split
  · exact le_rfl
  · exact h

theorem Shrinks.refl {entry : UsageEntry} (h : 0 ≤ entry.seconds) : Shrinks entry entry :=
  ⟨rfl, h, le_rfl, id, fun _ => le_rfl⟩

theorem Shrinks.charge_le {before after : UsageEntry} (h : Shrinks before after) (window t : Int) :
    after.charge window t ≤ before.charge window t := by
  have hbefore : 0 ≤ before.seconds := h.nonneg.trans h.seconds
  by_cases hmeets : after.meets window t
  · have hmeets' : before.meets window t := by
      simp only [meets, Bool.and_eq_true, Bool.or_eq_true, decide_eq_true_eq] at hmeets ⊢
      refine ⟨h.started ▸ hmeets.1, ?_⟩
      by_cases hactive : before.active
      · exact Or.inl hactive
      · rcases hmeets.2 with ha | ha
        · exact absurd (h.closed ha) hactive
        · have := h.charged (by simpa using hactive)
          exact Or.inr (by omega)
    rw [charge, charge, if_pos hmeets, if_pos hmeets']
    exact h.seconds
  · rw [charge, if_neg hmeets]
    exact charge_nonneg hbefore window t

theorem shrinks_expire (h : 0 ≤ entry.seconds) (now : Int) : Shrinks entry (entry.expire now) := by
  unfold expire
  split
  · rename_i hexpired
    simp only [Bool.and_eq_true, decide_eq_true_eq] at hexpired
    exact ⟨rfl, h, le_rfl, fun hfalse => absurd hfalse (by simp), fun hfalse => absurd hexpired.1 (by simp [hfalse])⟩
  · exact Shrinks.refl h

theorem shrinks_forfeited (h : 0 ≤ entry.seconds) (hactive : entry.active = true) (now : Int) :
    Shrinks entry (forfeited now entry) :=
  ⟨rfl, h, le_rfl, fun _ => hactive, fun hfalse => absurd hactive (by simp [hfalse])⟩

theorem shrinks_settled (h : 0 ≤ entry.seconds) (hactive : entry.active = true) (stoppedAt now : Int) :
    Shrinks entry (settled stoppedAt now entry) := by
  refine ⟨rfl, ?_, ?_, fun _ => hactive, fun hfalse => absurd hactive (by simp [hfalse])⟩
  · simp only [settled]
    omega
  · simp only [settled]
    omega

theorem shrinks_ended (h : 0 ≤ entry.seconds) (leases : List String) (now : Int) :
    Shrinks entry (ended leases now entry) := by
  unfold ended
  split
  · rename_i hclosed
    simp only [Bool.and_eq_true] at hclosed
    refine ⟨rfl, ?_, ?_, fun hfalse => absurd hfalse (by simp), fun hfalse => absurd hclosed.1 (by simp [hfalse])⟩
    · show 0 ≤ if entry.confirmed then _ else _
      split <;> omega
    · show (if entry.confirmed then _ else _) ≤ _
      split <;> omega
  · exact Shrinks.refl h

theorem expire_expire {early late : Int} (hle : early ≤ late) :
    (entry.expire early).expire late = entry.expire late := by
  by_cases hearly : entry.active && decide (entry.endsAt ≤ early)
  · have hlate : entry.active && decide (entry.endsAt ≤ late) := by
      simp only [Bool.and_eq_true, decide_eq_true_eq] at hearly ⊢
      exact ⟨hearly.1, by omega⟩
    have hinner : entry.expire early = { entry with active := false, chargedAt := entry.endsAt } := by
      rw [expire, if_pos hearly]
    rw [hinner, expire, if_neg (by simp), expire, if_pos hlate]
  · have hinner : entry.expire early = entry := by rw [expire, if_neg hearly]
    rw [hinner]

theorem stale_expire_of_le {early late window : Int} (hle : early ≤ late)
    (h : (entry.expire early).stale (early - window) = true) : (entry.expire late).stale (late - window) = true := by
  rw [← expire_expire hle]
  simp only [stale, Bool.and_eq_true, Bool.not_eq_true', decide_eq_true_eq] at h
  have hsame : (entry.expire early).expire late = entry.expire early := by
    rw [expire, if_neg (by simp [h.1])]
  rw [hsame, stale]
  simp only [h.1, Bool.not_false, Bool.true_and, decide_eq_true_eq]
  omega

end UsageEntry

namespace UsageBudget

variable {b : UsageBudget}

/-- Pruning twice is pruning at the later time. -/
theorem prune_prune {early late : Int} (hle : early ≤ late) :
    (b.prune early).prune late = b.prune late := by
  simp only [prune, UsageBudget.mk.injEq, true_and]
  induction b.entries with
  | nil => rfl
  | cons entry rest ih =>
    by_cases hstale : (entry.expire early).stale (early - b.window)
    · have hlate := UsageEntry.stale_expire_of_le hle hstale
      simp only [List.map_cons, List.filter_cons, hstale, hlate, Bool.not_true, Bool.false_eq_true, if_false]
      exact ih
    · have hkept : (!(entry.expire early).stale (early - b.window)) = true := by simpa using hstale
      simp only [List.map_cons, List.filter_cons, hkept, if_true, UsageEntry.expire_expire hle, ih]

theorem prune_of_not_pruneChanges {now : Int} (h : b.pruneChanges now = false) : b.prune now = b := by
  simp only [pruneChanges, Bool.or_eq_false_iff, List.any_eq_false, decide_eq_false_iff_not, ne_eq, not_not] at h
  have hmap : b.entries.map (·.expire now) = b.entries := by
    conv_rhs => rw [← List.map_id b.entries]
    apply List.map_congr_left
    intro entry hentry
    have := h.1 entry hentry
    rw [UsageEntry.expire, if_neg this, id]
  have hlength := h.2
  simp only [prune, hmap] at hlength ⊢
  rw [List.filter_eq_self.mpr (List.length_filter_eq_length_iff.mp hlength)]

theorem sum_prune_add_sum_pruned (b : UsageBudget) (now : Int) (g : UsageEntry → Int) :
    ((b.prune now).entries.map g).sum + ((b.pruned now).map g).sum = ((b.entries.map (·.expire now)).map g).sum := by
  simp only [prune, pruned]
  induction b.entries.map (·.expire now) with
  | nil => simp
  | cons entry rest ih =>
    by_cases hstale : entry.stale (now - b.window)
    · simp only [List.filter_cons, hstale, Bool.not_true, Bool.false_eq_true, if_false, if_true, List.map_cons, List.sum_cons]
      omega
    · simp only [List.filter_cons, hstale, Bool.not_false, Bool.false_eq_true, if_false, if_true, List.map_cons, List.sum_cons]
      omega

theorem mem_prune {now : Int} {entry : UsageEntry} (h : entry ∈ (b.prune now).entries) :
    ∃ before ∈ b.entries, entry = before.expire now := by
  obtain ⟨before, hbefore, rfl⟩ := List.mem_map.mp (List.mem_of_mem_filter h)
  exact ⟨before, hbefore, rfl⟩

theorem mem_pruned {now : Int} {entry : UsageEntry} (h : entry ∈ b.pruned now) :
    (∃ before ∈ b.entries, entry = before.expire now) ∧ entry.active = false ∧ entry.chargedAt < now - b.window := by
  rw [pruned, List.mem_filter] at h
  obtain ⟨before, hbefore, rfl⟩ := List.mem_map.mp h.1
  refine ⟨⟨before, hbefore, rfl⟩, ?_⟩
  simpa [UsageEntry.stale] using h.2

end UsageBudget

/-! ### Calls that only shrink charges -/

structure Tightens (before after : List UsageEntry) : Prop where
  charge : ∀ window t, (after.map (·.charge window t)).sum ≤ (before.map (·.charge window t)).sum
  seconds : (after.map (·.seconds)).sum ≤ (before.map (·.seconds)).sum
  nonneg : ∀ entry ∈ after, 0 ≤ entry.seconds
  full : ∀ entry ∈ after, entry.active = true → ∃ old ∈ before, old.active = true ∧ entry.seconds = old.seconds

namespace Tightens

theorem refl {l : List UsageEntry} (hl : ∀ entry ∈ l, 0 ≤ entry.seconds) : Tightens l l :=
  ⟨fun _ _ => le_rfl, le_rfl, hl, fun entry hentry hactive => ⟨entry, hentry, hactive, rfl⟩⟩

theorem sublist {before after : List UsageEntry} (hsub : after.Sublist before) (hb : ∀ entry ∈ before, 0 ≤ entry.seconds) :
    Tightens before after where
  charge window t := sum_map_le_of_sublist hsub fun entry hentry => UsageEntry.charge_nonneg (hb entry hentry) window t
  seconds := sum_map_le_of_sublist hsub hb
  nonneg entry hentry := hb entry (hsub.subset hentry)
  full entry hentry hactive := ⟨entry, hsub.subset hentry, hactive, rfl⟩

theorem map {l : List UsageEntry} {f : UsageEntry → UsageEntry} (hf : ∀ entry ∈ l, UsageEntry.Shrinks entry (f entry))
    (hfull : ∀ entry ∈ l, (f entry).active = true → (f entry).seconds = entry.seconds) : Tightens l (l.map f) where
  charge window t := by
    rw [List.map_map]
    exact List.sum_le_sum fun entry hentry => (hf entry hentry).charge_le window t
  seconds := by
    rw [List.map_map]
    exact List.sum_le_sum fun entry hentry => (hf entry hentry).seconds
  nonneg entry hentry := by
    obtain ⟨old, hold, rfl⟩ := List.mem_map.mp hentry
    exact (hf old hold).nonneg
  full entry hentry hactive := by
    obtain ⟨old, hold, rfl⟩ := List.mem_map.mp hentry
    exact ⟨old, hold, (hf old hold).closed hactive, hfull old hold hactive⟩

theorem updateFirst {l : List UsageEntry} {p : UsageEntry → Bool} {f : UsageEntry → UsageEntry}
    (hl : ∀ entry ∈ l, 0 ≤ entry.seconds)
    (hf : ∀ entry, p entry = true → 0 ≤ entry.seconds → UsageEntry.Shrinks entry (f entry))
    (hfull : ∀ entry ∈ l, p entry = true → (f entry).active = true → (f entry).seconds = entry.seconds) :
    Tightens l (RunnerYard.updateFirst p f l) := by
  induction l with
  | nil => exact refl (by simp)
  | cons entry rest ih =>
    by_cases hp : p entry
    · have hshrink := hf entry hp (hl entry (by simp))
      rw [RunnerYard.updateFirst, if_pos hp]
      refine ⟨fun window t => ?_, ?_, fun other hother => ?_, fun other hother hactive => ?_⟩
      · have := hshrink.charge_le window t
        simp only [List.map_cons, List.sum_cons]
        omega
      · have := hshrink.seconds
        simp only [List.map_cons, List.sum_cons]
        omega
      · rcases List.mem_cons.mp hother with rfl | hother
        · exact hshrink.nonneg
        · exact hl other (by simp [hother])
      · rcases List.mem_cons.mp hother with rfl | hother
        · exact ⟨entry, by simp, hshrink.closed hactive, hfull entry (by simp) hp hactive⟩
        · exact ⟨other, by simp [hother], hactive, rfl⟩
    · have hrest := ih (fun other hother => hl other (by simp [hother])) fun other hother => hfull other (by simp [hother])
      rw [RunnerYard.updateFirst, if_neg hp]
      refine ⟨fun window t => ?_, ?_, fun other hother => ?_, fun other hother hactive => ?_⟩
      · have := hrest.charge window t
        simp only [List.map_cons, List.sum_cons]
        omega
      · have := hrest.seconds
        simp only [List.map_cons, List.sum_cons]
        omega
      · rcases List.mem_cons.mp hother with rfl | hother
        · exact hl _ (by simp)
        · exact hrest.nonneg other hother
      · rcases List.mem_cons.mp hother with rfl | hother
        · exact ⟨other, by simp, hactive, rfl⟩
        · obtain ⟨old, hold, hfacts⟩ := hrest.full other hother hactive
          exact ⟨old, by simp [hold], hfacts⟩

end Tightens

theorem tightens_updateFirst_const {l : List UsageEntry} {p : UsageEntry → Bool} {old new : UsageEntry}
    (hl : ∀ entry ∈ l, 0 ≤ entry.seconds) (hfind : l.find? p = some old) (hnew : UsageEntry.Shrinks old new)
    (hfull : new.active = true → new.seconds = old.seconds) : Tightens l (updateFirst p (fun _ => new) l) := by
  have hsame : updateFirst p (fun _ => new) l = updateFirst (fun entry => p entry && decide (entry = old)) (fun _ => new) l := by
    clear hl
    induction l with
    | nil => rfl
    | cons entry rest ih =>
      by_cases hp : p entry
      · simp only [List.find?_cons, hp, Option.some.injEq] at hfind
        subst hfind
        simp [updateFirst, hp]
      · simp only [List.find?_cons, hp] at hfind
        simp [updateFirst, hp, ih hfind]
  rw [hsame]
  refine Tightens.updateFirst hl (fun entry hentry _ => ?_) fun entry _ hentry hactive => ?_
  · simp only [Bool.and_eq_true, decide_eq_true_eq] at hentry
    exact hentry.2 ▸ hnew
  · simp only [Bool.and_eq_true, decide_eq_true_eq] at hentry
    exact hentry.2 ▸ hfull hactive

namespace LedgerHistory

structure WindowInvariant (s : LedgerHistory) : Prop where
  reservation : 0 ≤ Duration.seconds s.budget.reservation
  bounded : ∀ t, (s.admitted.map (·.charge s.budget.window t)).sum ≤ Duration.seconds s.budget.limit
  used : s.budget.usedSeconds ≤ Duration.seconds s.budget.limit
  nonneg : ∀ entry ∈ s.admitted, 0 ≤ entry.seconds
  full : ∀ entry ∈ s.budget.entries, entry.active = true → entry.seconds = Duration.seconds s.budget.reservation
  gone : ∀ entry ∈ s.past, entry.active = false ∧ entry.chargedAt < s.clock - s.budget.window

variable {s : LedgerHistory} {now : Int}

theorem WindowInvariant.seconds_nonneg (h : WindowInvariant s) : ∀ entry ∈ s.budget.entries, 0 ≤ entry.seconds := fun entry hentry =>
  h.nonneg entry (List.mem_append_right _ hentry)

theorem WindowInvariant.sum_past (h : WindowInvariant s) {t : Int} (ht : s.clock ≤ t) :
    (s.past.map (·.charge s.budget.window t)).sum = 0 := by
  apply List.sum_eq_zero
  intro charged hcharged
  obtain ⟨entry, hentry, rfl⟩ := List.mem_map.mp hcharged
  have hgone := h.gone entry hentry
  have hmeets : ¬ entry.meets s.budget.window t = true := by
    simp only [UsageEntry.meets, hgone.1, Bool.false_or, Bool.and_eq_true, decide_eq_true_eq, not_and]
    omega
  simp only [UsageEntry.charge, if_neg hmeets]

theorem WindowInvariant.tighten (h : WindowInvariant s) {l : List UsageEntry} (file : List UsageEntry)
    (hl : Tightens s.budget.entries l) (hnow : s.clock ≤ now) :
    WindowInvariant { budget := { s.budget with entries := l }, file, past := s.past, clock := now } where
  reservation := h.reservation
  bounded t := by
    have hbefore := h.bounded t
    have hcharge := hl.charge s.budget.window t
    simp only [admitted, List.map_append, List.sum_append] at hbefore ⊢
    omega
  used := hl.seconds.trans h.used
  nonneg entry hentry := by
    rcases List.mem_append.mp hentry with hpast | hentry
    · exact h.nonneg entry (List.mem_append_left _ hpast)
    · exact hl.nonneg entry hentry
  full entry hentry hactive := by
    obtain ⟨old, hold, hactive', hseconds⟩ := hl.full entry hentry hactive
    exact hseconds.trans (h.full old hold hactive')
  gone entry hentry := by
    have hgone := h.gone entry hentry
    exact ⟨hgone.1, by show entry.chargedAt < now - s.budget.window; omega⟩

theorem WindowInvariant.prune (h : WindowInvariant s) (file : List UsageEntry)
    (hnow : s.clock ≤ now) :
    WindowInvariant { budget := s.budget.prune now, file, past := s.past ++ s.budget.pruned now, clock := now } := by
  have hentries := h.seconds_nonneg
  have hexpire : Tightens s.budget.entries (s.budget.entries.map (·.expire now)) := by
    refine Tightens.map (fun entry hentry => UsageEntry.shrinks_expire (hentries entry hentry) now) fun entry _ _ => ?_
    unfold UsageEntry.expire
    split <;> rfl
  have hkept : Tightens (s.budget.entries.map (·.expire now)) (s.budget.prune now).entries :=
    Tightens.sublist List.filter_sublist hexpire.nonneg
  refine ⟨h.reservation, fun t => ?_, ?_, fun entry hentry => ?_, fun entry hentry hactive => ?_, fun entry hentry => ?_⟩
  · have hbefore := h.bounded t
    have hsplit := s.budget.sum_prune_add_sum_pruned now (·.charge s.budget.window t)
    have hcharge := hexpire.charge s.budget.window t
    simp only [admitted, List.map_append, List.sum_append] at hbefore ⊢
    show (s.past.map (·.charge s.budget.window t)).sum + ((s.budget.pruned now).map (·.charge s.budget.window t)).sum +
      ((s.budget.prune now).entries.map (·.charge s.budget.window t)).sum ≤ Duration.seconds s.budget.limit
    omega
  · exact (hkept.seconds.trans hexpire.seconds).trans h.used
  · rcases List.mem_append.mp hentry with hpast | hentry
    · rcases List.mem_append.mp hpast with hpast | hdropped
      · exact h.nonneg entry (List.mem_append_left _ hpast)
      · obtain ⟨⟨before, hbefore, rfl⟩, _⟩ := mem_pruned hdropped
        exact hexpire.nonneg _ (List.mem_map_of_mem hbefore)
    · exact hkept.nonneg entry hentry
  · obtain ⟨mid, hmid, hactive', hseconds⟩ := hkept.full entry hentry hactive
    obtain ⟨old, hold, hactive'', hseconds'⟩ := hexpire.full mid hmid hactive'
    exact (hseconds.trans hseconds').trans (h.full old hold hactive'')
  · rcases List.mem_append.mp hentry with hpast | hdropped
    · have hgone := h.gone entry hpast
      exact ⟨hgone.1, by show entry.chargedAt < now - s.budget.window; omega⟩
    · exact (mem_pruned hdropped).2

theorem WindowInvariant.reserve (h : WindowInvariant s) (file : List UsageEntry) (leaseID : String)
    (hadmits : s.budget.admits (Duration.seconds s.budget.reservation) = true) :
    WindowInvariant { budget := { s.budget with entries := s.budget.entries ++ [s.budget.reserved leaseID s.clock] }, file, past := s.past, clock := s.clock } := by
  simp only [admits, Bool.not_eq_true', Bool.or_eq_false_iff, decide_eq_false_iff_not, not_lt] at hadmits
  have hused : (s.budget.entries.map (·.seconds)).sum = s.budget.usedSeconds := rfl
  refine ⟨h.reservation, fun t => ?_, ?_, fun entry hentry => ?_, fun entry hentry hactive => ?_, h.gone⟩
  · simp only [admitted, List.map_append, List.sum_append, List.map_cons, List.map_nil, List.sum_cons, List.sum_nil]
    by_cases ht : s.clock ≤ t
    · have hpast := h.sum_past ht
      have hentries : (s.budget.entries.map (·.charge s.budget.window t)).sum ≤ (s.budget.entries.map (·.seconds)).sum :=
        List.sum_le_sum fun entry hentry => UsageEntry.charge_le_seconds entry (h.nonneg entry (List.mem_append_right _ hentry)) _ _
      have hnew := (s.budget.reserved leaseID s.clock).charge_le_seconds h.reservation s.budget.window t
      have hseconds : (s.budget.reserved leaseID s.clock).seconds = Duration.seconds s.budget.reservation := rfl
      omega
    · have hbefore := h.bounded t
      have hnew : (s.budget.reserved leaseID s.clock).charge s.budget.window t = 0 := by
        rw [UsageEntry.charge, if_neg]
        simp [UsageEntry.meets, reserved, ht]
      simp only [admitted, List.map_append, List.sum_append] at hbefore
      omega
  · simp only [usedSeconds, List.map_append, List.sum_append, List.map_cons, List.map_nil, List.sum_cons, List.sum_nil]
    have hseconds : (s.budget.reserved leaseID s.clock).seconds = Duration.seconds s.budget.reservation := rfl
    omega
  · rcases List.mem_append.mp hentry with hpast | hentry
    · exact h.nonneg entry (List.mem_append_left _ hpast)
    · rcases List.mem_append.mp hentry with hentry | hnew
      · exact h.nonneg entry (List.mem_append_right _ hentry)
      · obtain rfl := List.mem_singleton.mp hnew
        exact h.reservation
  · rcases List.mem_append.mp hentry with hentry | hnew
    · exact h.full entry hentry hactive
    · obtain rfl := List.mem_singleton.mp hnew
      rfl

/-- The file holds what the ledger in memory holds, up to entries that are forgotten by now. -/
def Synced (s : LedgerHistory) : Prop :=
  ∀ t, s.clock ≤ t → { s.budget with entries := s.file }.prune t = s.budget.prune t

theorem invariant_reserve (h : WindowInvariant s) (hsync : Synced s) (leaseID : String)
    (hnow : s.clock ≤ now) :
    WindowInvariant (s.apply (.reserve leaseID now)) ∧ Synced (s.apply (.reserve leaseID now)) := by
  have hpruned := h.prune s.file hnow
  have hsynced : ∀ t, now ≤ t → { s.budget with entries := s.file }.prune t = (s.budget.prune now).prune t := by
    intro t ht
    rw [prune_prune ht]
    exact hsync t (by omega)
  simp only [apply, record, reserve]
  split
  · exact ⟨hpruned, hsynced⟩
  · split
    · exact ⟨hpruned, hsynced⟩
    · split
      · rename_i hadmits
        exact ⟨hpruned.reserve _ leaseID hadmits, fun t _ => rfl⟩
      · exact ⟨hpruned, hsynced⟩

theorem WindowInvariant.unchanged (h : WindowInvariant s) (hsync : Synced s) (hnow : s.clock ≤ now) :
    WindowInvariant { s with clock := now } ∧ Synced { s with clock := now } :=
  ⟨by simpa using h.tighten s.file (Tightens.refl h.seconds_nonneg) hnow, fun t ht => hsync t (by simp only at ht; omega)⟩

theorem invariant_settleAt (h : WindowInvariant s) (hsync : Synced s) (leaseID : String)
    {stoppedAt : Int} (hnow : s.clock ≤ now) :
    WindowInvariant (s.apply (.settleAt leaseID stoppedAt now)) ∧ Synced (s.apply (.settleAt leaseID stoppedAt now)) := by
  have hentries := h.seconds_nonneg
  simp only [apply, record, settleAt]
  split
  · have hcharged : Tightens s.budget.entries (updateFirst (·.activeFor leaseID) (settled stoppedAt now) s.budget.entries) := by
      apply Tightens.updateFirst hentries
      · intro entry hactive hseconds
        simp only [UsageEntry.activeFor, Bool.and_eq_true] at hactive
        exact UsageEntry.shrinks_settled hseconds hactive.2 stoppedAt now
      · intro entry _ _ hfalse
        simp [settled] at hfalse
    exact ⟨(h.tighten s.file hcharged hnow).prune _ le_rfl, fun t _ => rfl⟩
  · simpa using h.unchanged hsync hnow

theorem invariant_forfeit (h : WindowInvariant s) (hsync : Synced s) (leaseID : String)
    (hnow : s.clock ≤ now) :
    WindowInvariant (s.apply (.forfeit leaseID now)) ∧ Synced (s.apply (.forfeit leaseID now)) := by
  have hentries := h.seconds_nonneg
  simp only [apply, record, forfeit]
  split
  · have hcharged : Tightens s.budget.entries (updateFirst (·.activeFor leaseID) (forfeited now) s.budget.entries) := by
      apply Tightens.updateFirst hentries
      · intro entry hactive hseconds
        simp only [UsageEntry.activeFor, Bool.and_eq_true] at hactive
        exact UsageEntry.shrinks_forfeited hseconds hactive.2 now
      · intro entry _ _ hfalse
        simp [forfeited] at hfalse
    exact ⟨by simpa using h.tighten _ hcharged hnow, fun t _ => rfl⟩
  · simpa using h.unchanged hsync hnow

theorem invariant_release (h : WindowInvariant s) (hsync : Synced s) (leaseID : String)
    (hnow : s.clock ≤ now) :
    WindowInvariant (s.apply (.release leaseID now)) ∧ Synced (s.apply (.release leaseID now)) := by
  have hentries := h.seconds_nonneg
  simp only [apply, record, release]
  split
  · have hreleased : Tightens s.budget.entries (s.budget.entries.eraseP (·.activeFor leaseID)) :=
      Tightens.sublist List.eraseP_sublist hentries
    exact ⟨by simpa using h.tighten _ hreleased hnow, fun t _ => rfl⟩
  · simpa using h.unchanged hsync hnow

theorem invariant_adopt (h : WindowInvariant s) (hsync : Synced s) (leaseID : String)
    {startedAt : Int} (hnow : s.clock ≤ now)
    (hactive : (s.budget.entries.find? fun entry => entry.leaseID = leaseID).any (·.active) = true) :
    WindowInvariant (s.apply (.adopt leaseID startedAt now)) ∧ Synced (s.apply (.adopt leaseID startedAt now)) := by
  have hentries := h.seconds_nonneg
  have hunchanged := h.unchanged hsync hnow
  obtain ⟨entry, hfind, hentry⟩ := (Option.any_eq_true _ _).mp hactive
  have hmem := List.mem_of_find?_eq_some hfind
  simp only [apply, record, adopt, hfind, hentry, Bool.true_and, if_true]
  split
  · simpa using hunchanged
  · split
    · simpa using hunchanged
    · have hsame : s.budget.confirmed entry = { entry with confirmed := true } := by
        have hfull := h.full entry hmem hentry
        simp only [confirmed, UsageEntry.mk.injEq, true_and, and_true]
        omega
      -- The entry the update replaces is the one `find?` returned, so the replacement changes no charge.
      have hconfirmed : Tightens s.budget.entries
          (updateFirst (fun other => other.leaseID = leaseID) (fun _ => s.budget.confirmed entry) s.budget.entries) := by
        rw [hsame]
        exact tightens_updateFirst_const hentries hfind ⟨rfl, hentries entry hmem, le_rfl, fun _ => hentry, fun _ => le_rfl⟩ fun _ => rfl
      exact ⟨by simpa using h.tighten _ hconfirmed hnow, fun t _ => rfl⟩

theorem invariant_reconcile (h : WindowInvariant s) (hsync : Synced s) (activeLeases : List String)
    (hnow : s.clock ≤ now) :
    WindowInvariant (s.apply (.reconcile activeLeases now)) ∧ Synced (s.apply (.reconcile activeLeases now)) := by
  have hentries := h.seconds_nonneg
  have hclosed : Tightens s.budget.entries (s.budget.entries.map (ended activeLeases now)) := by
    refine Tightens.map (fun entry hentry => UsageEntry.shrinks_ended (hentries entry hentry) activeLeases now) fun entry _ hactive => ?_
    unfold ended at hactive ⊢
    split at hactive
    · simp at hactive
    · rename_i hopen
      rw [if_neg hopen]
  have hinvariant := (h.tighten s.file hclosed hnow).prune s.file le_rfl
  simp only [apply, record, reconcile]
  split
  · exact ⟨(h.tighten s.file hclosed hnow).prune _ le_rfl, fun t _ => rfl⟩
  · rename_i hchanged
    refine ⟨hinvariant, fun t ht => ?_⟩
    simp only [Bool.or_eq_true, not_or, Bool.not_eq_true] at hchanged
    have hmap : s.budget.entries.map (ended activeLeases now) = s.budget.entries := by
      conv_rhs => rw [← List.map_id s.budget.entries]
      apply List.map_congr_left
      intro entry hentry
      have hkept := List.any_eq_false.mp hchanged.1 entry hentry
      rw [ended, if_neg hkept, id]
    simp only [hmap] at hchanged ⊢
    rw [prune_of_not_pruneChanges hchanged.2]
    exact hsync t (by simp only at ht; omega)

theorem invariant_reload (h : WindowInvariant s) (hsync : Synced s)
    (hnow : s.clock ≤ now) (hload : (load s.budget.limit s.budget.window s.budget.reservation s.file now none).result = none) :
    WindowInvariant (s.apply (.reload now)) ∧ Synced (s.apply (.reload now)) := by
  have hpruned := hsync now hnow
  unfold load at hload
  simp only [apply, record, load]
  split at hload
  · simp at hload
  · rename_i haccepted
    rw [if_neg haccepted]
    dsimp only at hload
    split at hload
    · simp at hload
    · rename_i hvalid
      have hbudget : UsageBudget.prune { limit := s.budget.limit, window := s.budget.window, reservation := s.budget.reservation, entries := s.file } now
          = s.budget.prune now := hpruned
      split
      · refine ⟨?_, fun t _ => rfl⟩
        simp only [hbudget]
        exact h.prune _ hnow
      · rename_i hunchanged
        have hfile := prune_of_not_pruneChanges (by simpa using hunchanged)
        refine ⟨?_, fun t ht => ?_⟩
        · simp only [hbudget]
          exact h.prune _ hnow
        · simp only [hbudget]
          rw [prune_prune ht]
          exact hsync t (by simp only at ht; omega)

theorem invariant_apply (h : WindowInvariant s) (hsync : Synced s) {call : LedgerCall}
    (hcall : s.Allowed call) : WindowInvariant (s.apply call) ∧ Synced (s.apply call) := by
  obtain ⟨hnow, hcall⟩ := hcall
  cases call with
  | reserve leaseID now => exact invariant_reserve h hsync leaseID hnow
  | settleAt leaseID stoppedAt now => exact invariant_settleAt h hsync leaseID hnow
  | forfeit leaseID now => exact invariant_forfeit h hsync leaseID hnow
  | release leaseID now => exact invariant_release h hsync leaseID hnow
  | adopt leaseID startedAt now => exact invariant_adopt h hsync leaseID hnow hcall
  | reconcile activeLeases now => exact invariant_reconcile h hsync activeLeases hnow
  | reload now => exact invariant_reload h hsync hnow hcall

theorem invariant_run (h : WindowInvariant s) (hsync : Synced s) {calls : List LedgerCall}
    (hcalls : s.AllAllowed calls) : WindowInvariant (s.run calls) := by
  induction calls generalizing s with
  | nil => exact h
  | cons call rest ih =>
    obtain ⟨hstep, hsync'⟩ := invariant_apply h hsync hcalls.1
    exact ih hstep hsync' hcalls.2

theorem apply_budget (s : LedgerHistory) (call : LedgerCall) :
    (s.apply call).budget.limit = s.budget.limit ∧ (s.apply call).budget.window = s.budget.window := by
  constructor <;> cases call <;>
    simp only [apply, record, reserve, settleAt, forfeit, release, adopt, reconcile, load] <;>
    (repeat' split) <;> rfl

theorem run_budget (s : LedgerHistory) (calls : List LedgerCall) :
    (s.run calls).budget.limit = s.budget.limit ∧ (s.run calls).budget.window = s.budget.window := by
  induction calls generalizing s with
  | nil => exact ⟨rfl, rfl⟩
  | cons call rest ih =>
    have hstep := apply_budget s call
    have hrest := ih (s.apply call)
    exact ⟨hrest.1.trans hstep.1, hrest.2.trans hstep.2⟩

/-- **The rolling-window ceiling.** Whatever calls were made, in every window the seconds of all leases ever admitted, forgotten ones included, stay within the limit. -/
theorem rolling_window_ceiling (limit window reservation clock : Int) (hlimit : 0 < limit) (hreservation : 0 < reservation)
    (calls : List LedgerCall) (hcalls : (fresh limit window reservation clock).AllAllowed calls) (t : Int) :
    ((((fresh limit window reservation clock).run calls).admitted.filter (·.meets window t)).map (·.seconds)).sum
      ≤ Duration.seconds limit := by
  have hfresh : WindowInvariant (fresh limit window reservation clock) := by
    have hlimit' := Duration.seconds_pos hlimit
    refine ⟨(Duration.seconds_pos hreservation).le, fun t => ?_, ?_, ?_, ?_, ?_⟩ <;> simp [fresh, admitted, usedSeconds]
    · exact hlimit'.le
    · exact hlimit'.le
  have hrun := (invariant_run hfresh (fun t _ => rfl) hcalls).bounded t
  obtain ⟨hsameLimit, hsameWindow⟩ := run_budget (fresh limit window reservation clock) calls
  rw [hsameLimit, hsameWindow] at hrun
  refine le_trans (le_of_eq ?_) hrun
  show _ = ((((fresh limit window reservation clock).run calls).admitted.map (·.charge window t))).sum
  induction ((fresh limit window reservation clock).run calls).admitted with
  | nil => rfl
  | cons entry rest ih =>
    by_cases hmeets : entry.meets window t
    · simp [UsageEntry.charge, hmeets, ih]
    · simp [UsageEntry.charge, hmeets, ih]

theorem rolling_window_ceiling_of_two_leases :
    (((fresh 6000000000 10000000000 3000000000 0).run
        [.reserve "a" 1, .adopt "a" 1 2, .reserve "b" 3, .settleAt "a" 2000000000 2000000001, .reload 2000000002,
          .reserve "c" 20000000000, .reconcile [] 20000000001, .forfeit "c" 20000000002]).admitted.filter
      (·.meets 10000000000 2000000002) |>.map (·.seconds)).sum ≤ Duration.seconds 6000000000 :=
  rolling_window_ceiling 6000000000 10000000000 3000000000 0 (by decide) (by decide) _ (by decide) 2000000002

end LedgerHistory

end RunnerYard
