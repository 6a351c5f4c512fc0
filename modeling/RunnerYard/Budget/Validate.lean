import RunnerYard.Budget.Window

/-!
# What a restarted controller accepts

`validate` runs when a controller loads the ledger its predecessor wrote, and a ledger it refuses keeps the controller from starting. Its loop is characterised once, by a property of each entry and two of the list; each call is then a fact about the entries it writes. The calls read different clocks, and only one of the relations `validate` checks compares two of them: an ended entry must not be charged before it started. A call that ends an entry while the clock stands before its start writes a ledger that is refused.
-/

namespace RunnerYard

open UsageBudget

namespace UsageEntry

structure Valid (reservation : Int) (entry : UsageEntry) : Prop where
  leaseID : entry.leaseID ≠ ""
  startedAt : entry.startedAt ≠ 0
  chargedAt : entry.chargedAt ≠ 0
  one_le : 1 ≤ entry.seconds
  le_longest : entry.seconds ≤ Duration.seconds longestReservation
  full : entry.active = true → Duration.seconds reservation ≤ entry.seconds
  ordered : entry.active = false → entry.startedAt ≤ entry.chargedAt

variable {reservation now : Int} {entry : UsageEntry}

theorem startedAt_le_endsAt (entry : UsageEntry) (hseconds : 0 ≤ entry.seconds) : entry.startedAt ≤ entry.endsAt := by
  unfold endsAt Duration.ofSeconds Duration.second
  omega

theorem Valid.expire (h : entry.Valid reservation)
    (hzero : entry.active = true → entry.endsAt ≤ now → entry.endsAt ≠ 0) : (entry.expire now).Valid reservation := by
  unfold UsageEntry.expire
  split
  · rename_i hends
    simp only [Bool.and_eq_true, decide_eq_true_eq] at hends
    have hone := h.one_le
    exact { h with
      chargedAt := hzero hends.1 hends.2
      full := by simp
      ordered := fun _ => entry.startedAt_le_endsAt (by omega) }
  · exact h

theorem Valid.forfeited (h : entry.Valid reservation) (hnow : now ≠ 0) (hstart : entry.startedAt ≤ now) :
    (forfeited now entry).Valid reservation :=
  { h with chargedAt := hnow, full := by simp [UsageBudget.forfeited], ordered := fun _ => hstart }

theorem Valid.charged (h : entry.Valid reservation) (hnow : now ≠ 0) (hstart : entry.startedAt ≤ now) (elapsed : Int) :
    Valid reservation { entry with active := false, chargedAt := now, seconds := min entry.seconds (max 1 elapsed) } := by
  have hone := h.one_le
  have hlongest := h.le_longest
  exact { h with
    chargedAt := hnow
    one_le := by simp only; omega
    le_longest := by simp only; omega
    full := by simp
    ordered := fun _ => hstart }

theorem Valid.settled (h : entry.Valid reservation) (hnow : now ≠ 0) (hstart : entry.startedAt ≤ now) (stoppedAt : Int) :
    (settled stoppedAt now entry).Valid reservation :=
  h.charged hnow hstart _

theorem Valid.ended (h : entry.Valid reservation) (hnow : now ≠ 0) {activeLeases : List String}
    (hstart : entry.active = true → activeLeases.contains entry.leaseID = false → entry.startedAt ≤ now) :
    (ended activeLeases now entry).Valid reservation := by
  unfold UsageBudget.ended
  split
  · rename_i hends
    simp only [Bool.and_eq_true, Bool.not_eq_true'] at hends
    have hstarted := hstart hends.1 hends.2
    split
    · exact h.charged hnow hstarted _
    · exact h.forfeited hnow hstarted
  · exact h

end UsageEntry

/-- What `validate` asks of the list, but for the overflow of its sum. -/
structure ValidEntries (reservation : Int) (entries : List UsageEntry) : Prop where
  each : ∀ entry ∈ entries, entry.Valid reservation
  leases : (entries.map (·.leaseID)).Nodup

theorem validateFrom_eq_none_iff {reservation : Int} (index : Nat) (seen : List String) {total : Int}
    (htotal : total ≤ maxInt64) (entries : List UsageEntry) :
    validateFrom reservation index seen total entries = none ↔
      ValidEntries reservation entries ∧ (∀ entry ∈ entries, entry.leaseID ∉ seen) ∧
        total + (entries.map (·.seconds)).sum ≤ maxInt64 := by
  induction entries generalizing index seen total with
  | nil =>
    simp only [validateFrom, List.map_nil, List.sum_nil, true_iff]
    exact ⟨⟨by simp, by simp⟩, by simp, by omega⟩
  | cons entry rest ih =>
    have hsum : (∀ e ∈ rest, e.Valid reservation) → 0 ≤ (rest.map (·.seconds)).sum := by
      intro hrest
      apply List.sum_nonneg
      simp only [List.mem_map]
      rintro _ ⟨e, he, rfl⟩
      exact (by decide : (0 : Int) ≤ 1).trans (hrest e he).one_le
    constructor
    · intro hvalid
      unfold validateFrom at hvalid
      repeat' split at hvalid
      all_goals try exact absurd hvalid (by simp)
      rename_i hidentity hseen hseconds hfull hordered hoverflow
      simp only [Bool.or_eq_true, Bool.and_eq_true, decide_eq_true_eq, not_or, not_lt, not_and, List.contains_eq_mem,
        Bool.not_eq_true'] at hidentity hseen hseconds hfull hordered hoverflow
      obtain ⟨⟨hrest, hleases⟩, hfresh, htotal'⟩ := (ih (index + 1) (seen ++ [entry.leaseID]) (by omega)).mp hvalid
      refine ⟨⟨?_, ?_⟩, ?_, ?_⟩
      · rintro e he
        rcases List.mem_cons.mp he with rfl | he
        · exact ⟨hidentity.1.1, hidentity.1.2, hidentity.2, hseconds.1, hseconds.2, hfull, hordered⟩
        · exact hrest e he
      · simp only [List.map_cons, List.nodup_cons]
        refine ⟨?_, hleases⟩
        rintro hmem
        obtain ⟨e, he, hsame⟩ := List.mem_map.mp hmem
        exact hfresh e he (by simp [hsame])
      · intro e he
        rcases List.mem_cons.mp he with rfl | he
        · exact hseen
        · exact fun hmem => hfresh e he (List.mem_append_left _ hmem)
      · simp only [List.map_cons, List.sum_cons]
        omega
    · rintro ⟨⟨hvalid, hleases⟩, hfresh, htotal'⟩
      have hentry := hvalid entry (by simp)
      have hrest := fun e he => hvalid e (List.mem_cons_of_mem entry he)
      have hnonneg := hsum hrest
      simp only [List.map_cons, List.sum_cons, List.nodup_cons] at htotal' hleases
      have hone := hentry.one_le
      have hlongest := hentry.le_longest
      unfold validateFrom
      rw [if_neg (by simp [hentry.leaseID, hentry.startedAt, hentry.chargedAt]),
        if_neg (by simpa using hfresh entry (by simp)), if_neg (by simp; omega),
        if_neg (by simp only [Bool.and_eq_true, decide_eq_true_eq, not_and, not_lt]; exact hentry.full),
        if_neg (by simp only [Bool.and_eq_true, Bool.not_eq_true', decide_eq_true_eq, not_and, not_lt]; exact hentry.ordered),
        if_neg (by omega)]
      refine (ih (index + 1) (seen ++ [entry.leaseID]) (by omega)).mpr ⟨⟨hrest, hleases.2⟩, ?_, by omega⟩
      intro e he hmem
      rcases List.mem_append.mp hmem with hmem | hmem
      · exact hfresh e (List.mem_cons_of_mem entry he) hmem
      · rw [List.mem_singleton] at hmem
        exact hleases.1 (List.mem_map.mpr ⟨e, he, hmem⟩)

theorem validate_eq_none_iff (b : UsageBudget) :
    b.validate = none ↔ ValidEntries b.reservation b.entries ∧ b.usedSeconds ≤ maxInt64 := by
  unfold validate usedSeconds
  rw [validateFrom_eq_none_iff 0 [] (by decide)]
  simp

namespace ValidEntries

variable {reservation now : Int} {entries : List UsageEntry}

theorem sublist (h : ValidEntries reservation entries) {kept : List UsageEntry} (hkept : kept.Sublist entries) :
    ValidEntries reservation kept :=
  ⟨fun entry hentry => h.each entry (hkept.subset hentry), h.leases.sublist (hkept.map _)⟩

theorem map (h : ValidEntries reservation entries) {f : UsageEntry → UsageEntry} (hlease : ∀ entry, (f entry).leaseID = entry.leaseID)
    (hf : ∀ entry ∈ entries, (f entry).Valid reservation) : ValidEntries reservation (entries.map f) := by
  constructor
  · intro entry hentry
    obtain ⟨before, hbefore, rfl⟩ := List.mem_map.mp hentry
    exact hf before hbefore
  · rw [List.map_map, show (fun entry : UsageEntry => entry.leaseID) ∘ f = fun entry => entry.leaseID from funext hlease]
    exact h.leases

theorem updateFirst (h : ValidEntries reservation entries) {p : UsageEntry → Bool} {f : UsageEntry → UsageEntry}
    (hlease : ∀ entry, p entry → (f entry).leaseID = entry.leaseID)
    (hf : ∀ entry ∈ entries, p entry → (f entry).Valid reservation) : ValidEntries reservation (updateFirst p f entries) := by
  constructor
  · intro entry hentry
    rcases mem_updateFirst hentry with hentry | ⟨before, hfind, rfl⟩
    · exact h.each entry hentry
    · exact hf before (List.mem_of_find?_eq_some hfind) (List.find?_some hfind)
  · rw [map_updateFirst hlease]
    exact h.leases

theorem append (h : ValidEntries reservation entries) {entry : UsageEntry} (hentry : entry.Valid reservation)
    (hfresh : ∀ other ∈ entries, other.leaseID ≠ entry.leaseID) : ValidEntries reservation (entries ++ [entry]) := by
  constructor
  · intro other hother
    rcases List.mem_append.mp hother with hother | hother
    · exact h.each other hother
    · exact List.mem_singleton.mp hother ▸ hentry
  · rw [List.map_append, List.nodup_append]
    refine ⟨h.leases, by simp, ?_⟩
    intro lease hlease other hother
    obtain ⟨before, hbefore, rfl⟩ := List.mem_map.mp hlease
    rw [List.map_cons, List.map_nil, List.mem_singleton] at hother
    exact hother ▸ hfresh before hbefore

theorem prune {b : UsageBudget} (h : ValidEntries reservation b.entries)
    (hzero : ∀ entry ∈ b.entries, entry.active = true → entry.endsAt ≤ now → entry.endsAt ≠ 0) :
    ValidEntries reservation (b.prune now).entries := by
  refine (h.map (f := (·.expire now)) (fun entry => ?_) fun entry hentry => ?_).sublist List.filter_sublist
  · unfold UsageEntry.expire
    split <;> rfl
  · exact (h.each entry hentry).expire (hzero entry hentry)

end ValidEntries

namespace LedgerHistory

/-- No entry that the passing of time ends by `now` ends at Go's zero instant. -/
def NoneEndsAtZero (entries : List UsageEntry) (now : Int) : Prop :=
  ∀ entry ∈ entries, entry.active = true → entry.endsAt ≤ now → entry.endsAt ≠ 0

/-- The clock a call reads stands at or after the start of every entry the call ends. -/
def InOrder (s : LedgerHistory) : LedgerCall → Prop
  | .reserve leaseID now => leaseID ≠ "" ∧ NoneEndsAtZero s.budget.entries now
  | .settleAt leaseID _ now =>
    (∀ entry ∈ s.budget.entries, entry.activeFor leaseID = true → entry.startedAt ≤ now) ∧ NoneEndsAtZero s.budget.entries now
  | .forfeit leaseID now => ∀ entry ∈ s.budget.entries, entry.activeFor leaseID = true → entry.startedAt ≤ now
  | .release _ _ => True
  | .adopt _ _ _ => True
  | .reconcile activeLeases now =>
    (∀ entry ∈ s.budget.entries, entry.active = true → activeLeases.contains entry.leaseID = false → entry.startedAt ≤ now) ∧
      NoneEndsAtZero s.budget.entries now
  | .reload now => NoneEndsAtZero s.file now

/-- The instants passed to a call are not Go's zero instant, and the seconds it leaves in the ledger can be summed. -/
def Representable (s : LedgerHistory) (call : LedgerCall) : Prop :=
  call.time ≠ 0 ∧ (s.apply call).budget.usedSeconds ≤ maxInt64

instance (s : LedgerHistory) (call : LedgerCall) : Decidable (s.Representable call) := instDecidableAnd

/-- Every step of the run is representable and in order. -/
def AllInOrder : LedgerHistory → List LedgerCall → Prop
  | _, [] => True
  | s, call :: calls => s.Representable call ∧ s.InOrder call ∧ AllInOrder (s.apply call) calls

/-- Both the ledger in memory and the one in the file would be accepted. -/
structure Accepted (s : LedgerHistory) : Prop where
  positive : 0 < s.budget.reservation
  longest : s.budget.reservation ≤ longestReservation
  memory : ValidEntries s.budget.reservation s.budget.entries
  file : { s.budget with entries := s.file }.validate = none

variable {s : LedgerHistory} {now : Int} {leaseID : String}

theorem accepted_of_saved (hpositive : 0 < s.budget.reservation)
    (hlongest : s.budget.reservation ≤ longestReservation) (hmemory : ValidEntries s.budget.reservation s.budget.entries)
    (hfile : s.file = s.budget.entries) (hsum : s.budget.usedSeconds ≤ maxInt64) : Accepted s :=
  ⟨hpositive, hlongest, hmemory, (validate_eq_none_iff _).mpr ⟨hfile ▸ hmemory, by rw [hfile]; exact hsum⟩⟩

theorem seconds_reservation (h : Accepted s) :
    1 ≤ Duration.seconds s.budget.reservation ∧ Duration.seconds s.budget.reservation ≤ Duration.seconds longestReservation :=
  ⟨Duration.seconds_pos h.positive, Duration.seconds_mono h.longest⟩

theorem valid_reserved (h : Accepted s) (hlease : leaseID ≠ "") (hnow : now ≠ 0) :
    (s.budget.reserved leaseID now).Valid s.budget.reservation :=
  ⟨hlease, hnow, hnow, (seconds_reservation h).1, (seconds_reservation h).2, fun _ => le_rfl, fun _ => le_rfl⟩

theorem valid_adopted (h : Accepted s) {startedAt : Int} (hlease : leaseID ≠ "")
    (hstarted : startedAt ≠ 0) : (s.budget.adopted leaseID startedAt).Valid s.budget.reservation :=
  ⟨hlease, hstarted, hstarted, (seconds_reservation h).1, (seconds_reservation h).2, fun _ => le_rfl, fun _ => le_rfl⟩

theorem valid_confirmed (h : Accepted s) {entry : UsageEntry} (hentry : entry.Valid s.budget.reservation) :
    (s.budget.confirmed entry).Valid s.budget.reservation := by
  have hone := hentry.one_le
  exact { hentry with
    one_le := le_max_of_le_left hentry.one_le
    le_longest := max_le hentry.le_longest (seconds_reservation h).2
    full := fun _ => le_max_right _ _ }

theorem accepted_reserve (h : Accepted s)
    (hcall : s.Representable (.reserve leaseID now)) (horder : s.InOrder (.reserve leaseID now)) :
    Accepted (s.apply (.reserve leaseID now)) := by
  obtain ⟨hnow, hsum⟩ := hcall
  have hpruned := h.memory.prune horder.2
  have hrefused : ∀ past, Accepted { s with budget := s.budget.prune now, past, clock := now } := fun past =>
    ⟨h.positive, h.longest, hpruned, h.file⟩
  simp only [apply, record, reserve] at hsum ⊢
  split
  · exact hrefused _
  · rename_i hnew
    split
    · exact hrefused _
    · split
      · rename_i hadmits
        rw [if_neg hnew, if_neg (by assumption), if_pos hadmits] at hsum
        refine accepted_of_saved h.positive h.longest (hpruned.append (valid_reserved h horder.1 hnow) ?_) rfl hsum
        intro other hother hsame
        exact hnew (List.any_eq_true.mpr ⟨other, hother, decide_eq_true hsame⟩)
      · exact hrefused _

theorem accepted_settleAt (h : Accepted s) {stoppedAt : Int}
    (hcall : s.Representable (.settleAt leaseID stoppedAt now)) (horder : s.InOrder (.settleAt leaseID stoppedAt now)) :
    Accepted (s.apply (.settleAt leaseID stoppedAt now)) := by
  obtain ⟨hnow, hsum⟩ := hcall
  simp only [apply, record, settleAt] at hsum ⊢
  split
  · rename_i hany
    rw [if_pos hany] at hsum
    refine accepted_of_saved h.positive h.longest ?_ rfl hsum
    refine ValidEntries.prune (h.memory.updateFirst (fun _ _ => rfl) fun entry hentry hactive => ?_) ?_
    · exact (h.memory.each entry hentry).settled hnow (horder.1 entry hentry hactive) stoppedAt
    · intro entry hentry hactive hends
      rcases mem_updateFirst hentry with hentry | ⟨before, -, rfl⟩
      · exact horder.2 entry hentry hactive hends
      · simp [settled] at hactive
  · exact ⟨h.positive, h.longest, h.memory, h.file⟩

theorem accepted_forfeit (h : Accepted s)
    (hcall : s.Representable (.forfeit leaseID now)) (horder : s.InOrder (.forfeit leaseID now)) :
    Accepted (s.apply (.forfeit leaseID now)) := by
  obtain ⟨hnow, hsum⟩ := hcall
  simp only [apply, record, forfeit] at hsum ⊢
  split
  · rename_i hany
    rw [if_pos hany] at hsum
    refine accepted_of_saved h.positive h.longest ?_ rfl hsum
    refine h.memory.updateFirst (fun _ _ => rfl) fun entry hentry hactive => ?_
    exact (h.memory.each entry hentry).forfeited hnow (horder entry hentry hactive)
  · exact ⟨h.positive, h.longest, h.memory, h.file⟩

theorem accepted_release (h : Accepted s)
    (hcall : s.Representable (.release leaseID now)) : Accepted (s.apply (.release leaseID now)) := by
  have hsum := hcall.2
  simp only [apply, record, release] at hsum ⊢
  split
  · rename_i hany
    rw [if_pos hany] at hsum
    exact accepted_of_saved h.positive h.longest (h.memory.sublist List.eraseP_sublist) rfl hsum
  · exact ⟨h.positive, h.longest, h.memory, h.file⟩

theorem accepted_adopt (h : Accepted s) {startedAt : Int}
    (hcall : s.Representable (.adopt leaseID startedAt now)) : Accepted (s.apply (.adopt leaseID startedAt now)) := by
  obtain ⟨hnow, hsum⟩ := hcall
  have hstarted : (if startedAt = 0 then now else startedAt) ≠ 0 := by
    split
    · exact hnow
    · assumption
  simp only [apply, record, adopt] at hsum ⊢
  split
  · exact ⟨h.positive, h.longest, h.memory, h.file⟩
  · rename_i hlease
    rw [if_neg hlease] at hsum
    have hadopted := valid_adopted h hlease hstarted
    cases hfind : s.budget.entries.find? fun entry => entry.leaseID = leaseID with
    | some entry =>
      simp only [hfind] at hsum ⊢
      have hentry := h.memory.each entry (List.mem_of_find?_eq_some hfind)
      have hsame : entry.leaseID = leaseID := by simpa using List.find?_some hfind
      split
      · exact ⟨h.positive, h.longest, h.memory, h.file⟩
      · rename_i hunconfirmed
        rw [if_neg hunconfirmed] at hsum
        refine accepted_of_saved h.positive h.longest (h.memory.updateFirst (fun other hother => ?_) fun _ _ _ => ?_) rfl hsum
        · have hother' : other.leaseID = leaseID := by simpa using hother
          split
          · exact hsame.trans hother'.symm
          · exact hother'.symm
        · split
          · exact valid_confirmed h hentry
          · exact hadopted
    | none =>
      simp only [hfind] at hsum ⊢
      refine accepted_of_saved h.positive h.longest (h.memory.append hadopted ?_) rfl hsum
      intro other hother hsame
      exact List.find?_eq_none.mp hfind other hother (decide_eq_true hsame)

theorem accepted_reconcile (h : Accepted s) {activeLeases : List String}
    (hcall : s.Representable (.reconcile activeLeases now)) (horder : s.InOrder (.reconcile activeLeases now)) :
    Accepted (s.apply (.reconcile activeLeases now)) := by
  obtain ⟨hnow, hsum⟩ := hcall
  have hlease : ∀ entry, (ended activeLeases now entry).leaseID = entry.leaseID := by
    intro entry
    unfold ended
    split <;> rfl
  have hclosed := h.memory.map hlease fun entry hentry => (h.memory.each entry hentry).ended hnow (horder.1 entry hentry)
  have hmemory : ValidEntries s.budget.reservation
      (UsageBudget.prune { s.budget with entries := s.budget.entries.map (ended activeLeases now) } now).entries := by
    refine ValidEntries.prune hclosed fun entry hentry hactive hends => ?_
    obtain ⟨before, hbefore, rfl⟩ := List.mem_map.mp hentry
    unfold ended at hactive hends ⊢
    split at hactive
    · simp at hactive
    · rename_i hopen
      rw [if_neg hopen] at hends ⊢
      exact horder.2 before hbefore hactive hends
  simp only [apply, record, reconcile] at hsum ⊢
  split
  · rename_i hchanged
    rw [if_pos hchanged] at hsum
    exact accepted_of_saved h.positive h.longest hmemory rfl hsum
  · exact ⟨h.positive, h.longest, hmemory, h.file⟩

theorem accepted_reload (h : Accepted s) (hcall : s.Representable (.reload now))
    (horder : s.InOrder (.reload now)) : Accepted (s.apply (.reload now)) := by
  have hfile := (validate_eq_none_iff _).mp h.file
  have hpruned : ValidEntries s.budget.reservation (UsageBudget.prune { s.budget with entries := s.file } now).entries :=
    hfile.1.prune horder
  have hsum := hcall.2
  simp only [apply, record, load] at hsum ⊢
  split
  · exact ⟨h.positive, h.longest, hfile.1, h.file⟩
  · rename_i haccepted
    rw [if_neg haccepted] at hsum
    have hvalid : UsageBudget.validate { limit := s.budget.limit, window := s.budget.window, reservation := s.budget.reservation, entries := s.file } = none :=
      h.file
    simp only [hvalid] at hsum ⊢
    split
    · rename_i hchanged
      rw [if_pos hchanged] at hsum
      exact accepted_of_saved h.positive h.longest hpruned rfl hsum
    · exact ⟨h.positive, h.longest, hpruned, h.file⟩

theorem accepted_apply (h : Accepted s) {call : LedgerCall} (hcall : s.Representable call)
    (horder : s.InOrder call) : Accepted (s.apply call) := by
  cases call with
  | reserve leaseID now => exact accepted_reserve h hcall horder
  | settleAt leaseID stoppedAt now => exact accepted_settleAt h hcall horder
  | forfeit leaseID now => exact accepted_forfeit h hcall horder
  | release leaseID now => exact accepted_release h hcall
  | adopt leaseID startedAt now => exact accepted_adopt h hcall
  | reconcile activeLeases now => exact accepted_reconcile h hcall horder
  | reload now => exact accepted_reload h hcall horder

theorem accepted_run (h : Accepted s) {calls : List LedgerCall} (hcalls : s.AllInOrder calls) :
    Accepted (s.run calls) := by
  induction calls generalizing s with
  | nil => exact h
  | cons call rest ih => exact ih (accepted_apply h hcalls.1 hcalls.2.1) hcalls.2.2

/-- In every run whose calls read clocks in order, what the controller has written is what its successor accepts. -/
theorem persisted_ledger_accepted (s : LedgerHistory) (hpositive : 0 < s.budget.reservation)
    (hlongest : s.budget.reservation ≤ longestReservation) (hvalid : s.budget.validate = none)
    (hfile : s.file = s.budget.entries) (calls : List LedgerCall) (hcalls : s.AllInOrder calls) :
    { (s.run calls).budget with entries := (s.run calls).file }.validate = none := by
  obtain ⟨hmemory, hsum⟩ := (validate_eq_none_iff s.budget).mp hvalid
  exact (accepted_run (accepted_of_saved hpositive hlongest hmemory hfile hsum) hcalls).file

theorem persisted_ledger_accepted_after_settlement :
    { ((fresh 6000000000 10000000000 3000000000 0).run
        [.reserve "a" 1, .adopt "a" 2 3, .settleAt "a" 2000000000 2000000001]).budget with
      entries := ((fresh 6000000000 10000000000 3000000000 0).run
        [.reserve "a" 1, .adopt "a" 2 3, .settleAt "a" 2000000000 2000000001]).file }.validate = none :=
  persisted_ledger_accepted (fresh 6000000000 10000000000 3000000000 0) (by decide) (by decide) (by decide) rfl
    [.reserve "a" 1, .adopt "a" 2 3, .settleAt "a" 2000000000 2000000001]
    ⟨by decide, ⟨by decide, by unfold NoneEndsAtZero; decide⟩, by decide, trivial, by decide,
      ⟨by decide, by unfold NoneEndsAtZero; decide⟩, trivial⟩

/-- The clock steps back by five seconds before a failed launch ends: the ledger written then is refused. -/
theorem persisted_ledger_refused_after_clock_step :
    (fresh 6000000000 10000000000 3000000000 0).Representable (.reserve "a" 10000000000) ∧
      ((fresh 6000000000 10000000000 3000000000 0).apply (.reserve "a" 10000000000)).Representable (.forfeit "a" 5000000000) ∧
      { ((fresh 6000000000 10000000000 3000000000 0).run [.reserve "a" 10000000000, .forfeit "a" 5000000000]).budget with
        entries := ((fresh 6000000000 10000000000 3000000000 0).run
          [.reserve "a" 10000000000, .forfeit "a" 5000000000]).file }.validate
        = some (.text "invalid runner usage budget entry a: charge precedes start") :=
  ⟨by decide, by decide, by decide⟩

end LedgerHistory

end RunnerYard
