import Mathlib.Order.Interval.Finset.Defs
import Mathlib.Data.Int.Interval
import RunnerYard.Base.Time

/-!
# The launches a pool counts

`count` and `recent` of `pool/conditions.go`: the window of five-minute buckets from which a pool reports that it overflows. A bucket that has expired is dropped only when a new one starts, so the stored window is longer than the last hour at most times. `Tallied` says what it stands for all the same: read at any later time, it gives the counts of the whole history.
-/

namespace RunnerYard

def overflowWindow : Int := Duration.hour

def overflowBucket : Int := 5 * Duration.minute

/-- `t.Truncate(d)`: down to a multiple of `d` since the zero time. -/
def truncate (t d : Int) : Int := t - t % d

structure LaunchCount where
  now : Int
  overflowed : Bool
deriving DecidableEq, Repr

structure LaunchBucket where
  start : Int
  launched : Nat := 0
  overflowed : Nat := 0
deriving DecidableEq, Repr

/-- What `count` and `recent` read and write of `poolHealth`. -/
structure PoolHealth where
  window : List LaunchBucket := []
  lastFull : Int := 0
deriving DecidableEq, Repr

/-- `now.Sub(start) < overflowWindow`. -/
def inWindow (now start : Int) : Bool := decide (now - start < overflowWindow)

def LaunchCount.start (c : LaunchCount) : Int := truncate c.now overflowBucket

def LaunchBucket.add (b : LaunchBucket) (overflowed : Bool) : LaunchBucket :=
  if overflowed then { b with overflowed := b.overflowed + 1 } else { b with launched := b.launched + 1 }

namespace PoolHealth

/-- The buckets before the one a launch at `now` is counted in, and that bucket. -/
def opened (s : PoolHealth) (now : Int) : List LaunchBucket × LaunchBucket :=
  let start := truncate now overflowBucket
  match s.window.getLast? with
  | some last =>
    if last.start = start then (s.window.dropLast, last)
    else (s.window.filter fun b => inWindow now b.start, { start })
  | none => ([], { start })

def count (s : PoolHealth) (c : LaunchCount) : PoolHealth :=
  let (kept, bucket) := s.opened c.now
  { window := kept ++ [bucket.add c.overflowed]
    lastFull := if c.overflowed then c.now else s.lastFull }

def total (field : LaunchBucket → Nat) (window : List LaunchBucket) (now : Int) : Nat :=
  ((window.filter fun b => inWindow now b.start).map field).sum

def recent (s : PoolHealth) (now : Int) : Nat × Nat :=
  (total LaunchBucket.launched s.window now, total LaunchBucket.overflowed s.window now)

def counted (calls : List LaunchCount) : PoolHealth := calls.foldl count {}

end PoolHealth

/-- How many launches of a history were taken, or refused, in a bucket that began less than an hour before `now`. -/
def launchesSince (calls : List LaunchCount) (now : Int) (overflowed : Bool) : Nat :=
  calls.countP fun c => c.overflowed == overflowed && inWindow now c.start

/-! ### One launch -/

theorem truncate_mono {s t : Int} (h : s ≤ t) : truncate s overflowBucket ≤ truncate t overflowBucket := by
  unfold truncate overflowBucket Duration.minute Duration.second
  omega

theorem inWindow_mono {now later start : Int} (hlater : now ≤ later) (h : inWindow later start = true) : inWindow now start = true := by
  simp only [inWindow, decide_eq_true_eq] at h ⊢
  omega

namespace PoolHealth

theorem total_append (field : LaunchBucket → Nat) (w₁ w₂ : List LaunchBucket) (now : Int) :
    total field (w₁ ++ w₂) now = total field w₁ now + total field w₂ now := by
  simp [total]

theorem total_singleton (field : LaunchBucket → Nat) (b : LaunchBucket) (now : Int) :
    total field [b] now = if inWindow now b.start then field b else 0 := by
  by_cases hin : inWindow now b.start <;> simp [total, hin]

theorem total_filter {now later : Int} (hlater : now ≤ later) (field : LaunchBucket → Nat) (window : List LaunchBucket) :
    total field (window.filter fun b => inWindow now b.start) later = total field window later := by
  rw [total, total, List.filter_filter]
  congr 2
  apply List.filter_congr
  intro b _
  by_cases hin : inWindow later b.start
  · rw [hin, inWindow_mono hlater hin]
    rfl
  · simp [hin]

theorem opened_cases (s : PoolHealth) (now : Int) :
    (s.window = (s.opened now).1 ++ [(s.opened now).2] ∧ (s.opened now).2.start = truncate now overflowBucket) ∨
      (s.opened now = (s.window.filter fun b => inWindow now b.start, { start := truncate now overflowBucket }) ∧
        ∀ b, s.window.getLast? = some b → b.start ≠ truncate now overflowBucket) := by
  unfold opened
  cases hlast : s.window.getLast? with
  | none =>
    rw [List.getLast?_eq_none_iff] at hlast
    simp [hlast]
  | some last =>
    by_cases hstart : last.start = truncate now overflowBucket
    · obtain ⟨before, hwindow⟩ := List.getLast?_eq_some_iff.mp hlast
      simp [hstart, hwindow]
    · simp [hstart]

end PoolHealth

theorem LaunchBucket.start_add (b : LaunchBucket) (overflowed : Bool) : (b.add overflowed).start = b.start := by
  cases overflowed <;> rfl

/-! ### The window of a history -/

/-- What a window holds after a history of launches: buckets in order, at most as many as begin within an hour, which give the counts of the history. -/
structure Tallied (calls : List LaunchCount) (window : List LaunchBucket) : Prop where
  ascending : (window.map LaunchBucket.start).Pairwise (· < ·)
  begun : ∀ b ∈ window, ∃ c ∈ calls, b.start = c.start
  short : (window.length : Int) ≤ overflowWindow / overflowBucket
  launched : ∀ now, (∀ c ∈ calls, c.now ≤ now) → PoolHealth.total LaunchBucket.launched window now = launchesSince calls now false
  overflowed : ∀ now, (∀ c ∈ calls, c.now ≤ now) → PoolHealth.total LaunchBucket.overflowed window now = launchesSince calls now true

theorem length_lt_of_inWindow {now : Int} {starts : List Int} (hascending : starts.Pairwise (· < ·))
    (hbegun : ∀ s ∈ starts, ∃ t, s = truncate t overflowBucket)
    (hstarts : ∀ s ∈ starts, inWindow now s ∧ s < truncate now overflowBucket) :
    (starts.length : Int) < overflowWindow / overflowBucket := by
  -- Numbered by their multiple of five minutes, the starts are distinct among the eleven before the current one.
  have hnodup : (starts.map (· / overflowBucket)).Nodup := by
    rw [List.Nodup, List.pairwise_map]
    apply hascending.imp_of_mem
    intro a b ha hb hlt
    obtain ⟨s, rfl⟩ := hbegun a ha
    obtain ⟨t, rfl⟩ := hbegun b hb
    unfold truncate overflowBucket Duration.minute Duration.second at *
    omega
  have hsub : (starts.map (· / overflowBucket)).toFinset ⊆ Finset.Ico (now / overflowBucket - 11) (now / overflowBucket) := by
    intro k hk
    simp only [List.mem_toFinset, List.mem_map] at hk
    obtain ⟨s, hs, rfl⟩ := hk
    obtain ⟨t, ht⟩ := hbegun s hs
    have hwithin := hstarts s hs
    rw [Finset.mem_Ico]
    unfold inWindow overflowWindow truncate overflowBucket Duration.hour Duration.minute Duration.second at *
    simp only [decide_eq_true_eq] at hwithin
    omega
  have hcard := Finset.card_le_card hsub
  rw [List.toFinset_card_of_nodup hnodup, List.length_map, Int.card_Ico] at hcard
  unfold overflowWindow overflowBucket Duration.hour Duration.minute Duration.second
  omega

theorem launchesSince_append (calls : List LaunchCount) (c : LaunchCount) (now : Int) (overflowed : Bool) :
    launchesSince (calls ++ [c]) now overflowed =
      launchesSince calls now overflowed + if c.overflowed == overflowed && inWindow now c.start then 1 else 0 := by
  simp [launchesSince, List.countP_append, List.countP_singleton]

namespace Tallied

variable {calls : List LaunchCount} {s : PoolHealth} {c : LaunchCount}

theorem start_lt (h : Tallied calls s.window) (hlatest : ∀ d ∈ calls, d.now ≤ c.now)
    (hlast : ∀ b, s.window.getLast? = some b → b.start ≠ c.start) {b : LaunchBucket} (hb : b ∈ s.window) : b.start < c.start := by
  obtain ⟨before, last, hwindow⟩ := List.eq_nil_or_concat s.window |>.resolve_left (List.ne_nil_of_mem hb)
  have hle : last.start ≤ c.start := by
    obtain ⟨d, hd, heq⟩ := h.begun last (by simp [hwindow])
    rw [heq]
    exact truncate_mono (hlatest d hd)
  have hlt : last.start < c.start := lt_of_le_of_ne hle (hlast last (by simp [hwindow]))
  have hascending := h.ascending
  simp only [hwindow, List.concat_eq_append, List.map_append, List.map_cons, List.map_nil, List.pairwise_append, List.mem_map] at hascending
  rw [hwindow, List.concat_eq_append, List.mem_append, List.mem_singleton] at hb
  rcases hb with hb | rfl
  · exact lt_trans (hascending.2.2 b.start ⟨b, hb, rfl⟩ last.start (by simp)) hlt
  · exact hlt

theorem opened (h : Tallied calls s.window) (hlatest : ∀ d ∈ calls, d.now ≤ c.now) :
    let w := (s.opened c.now).1 ++ [(s.opened c.now).2]
    (s.opened c.now).2.start = c.start ∧ (w.map LaunchBucket.start).Pairwise (· < ·) ∧ (∀ b ∈ w, b.start = c.start ∨ ∃ d ∈ calls, b.start = d.start) ∧
      (w.length : Int) ≤ overflowWindow / overflowBucket ∧
        ∀ now, c.now ≤ now → PoolHealth.total LaunchBucket.launched w now = PoolHealth.total LaunchBucket.launched s.window now ∧
          PoolHealth.total LaunchBucket.overflowed w now = PoolHealth.total LaunchBucket.overflowed s.window now := by
  rcases s.opened_cases c.now with ⟨hwindow, hstart⟩ | ⟨hopened, hlast⟩
  · rw [← hwindow]
    exact ⟨hstart, h.ascending, fun b hb => Or.inr (h.begun b hb), h.short, fun _ _ => ⟨rfl, rfl⟩⟩
  · have hbefore : ∀ b ∈ s.window, b.start < c.start := fun b hb => h.start_lt hlatest hlast hb
    have hkept : ((s.window.filter fun b => inWindow c.now b.start).map LaunchBucket.start).Pairwise (· < ·) :=
      h.ascending.sublist (List.filter_sublist.map _)
    rw [hopened]
    refine ⟨rfl, ?_, ?_, ?_, ?_⟩
    · rw [List.map_append, List.pairwise_append]
      refine ⟨hkept, by simp, ?_⟩
      intro a ha b hb
      obtain ⟨bucket, hbucket, rfl⟩ := List.mem_map.mp ha
      rw [List.map_singleton, List.mem_singleton] at hb
      rw [hb]
      exact hbefore bucket (List.mem_of_mem_filter hbucket)
    · intro b hb
      rcases List.mem_append.mp hb with hb | hb
      · exact Or.inr (h.begun b (List.mem_of_mem_filter hb))
      · rw [List.mem_singleton] at hb
        exact Or.inl (by rw [hb]; rfl)
    · have hlt := length_lt_of_inWindow hkept
        (by
          intro a ha
          obtain ⟨bucket, hbucket, rfl⟩ := List.mem_map.mp ha
          obtain ⟨d, -, heq⟩ := h.begun bucket (List.mem_of_mem_filter hbucket)
          exact ⟨d.now, heq⟩)
        (by
          intro a ha
          obtain ⟨bucket, hbucket, rfl⟩ := List.mem_map.mp ha
          rw [List.mem_filter] at hbucket
          exact ⟨hbucket.2, hbefore bucket hbucket.1⟩)
      rw [List.length_map] at hlt
      simp only [List.length_append, List.length_singleton]
      omega
    · intro now hnow
      simp only [PoolHealth.total_append, PoolHealth.total_filter hnow, PoolHealth.total_singleton, ite_self, Nat.add_zero, and_self]

theorem count (h : Tallied calls s.window) (hlatest : ∀ d ∈ calls, d.now ≤ c.now) : Tallied (calls ++ [c]) (s.count c).window := by
  obtain ⟨hstart, hascending, hbegun, hshort, htotals⟩ := h.opened hlatest
  have hwindow : (s.count c).window = (s.opened c.now).1 ++ [(s.opened c.now).2.add c.overflowed] := rfl
  rw [hwindow]
  refine ⟨?_, ?_, ?_, ?_, ?_⟩
  · simpa [LaunchBucket.start_add] using hascending
  · intro b hb
    rcases List.mem_append.mp hb with hb | hb
    · rcases hbegun b (List.mem_append_left _ hb) with heq | ⟨d, hd, heq⟩
      · exact ⟨c, by simp, heq⟩
      · exact ⟨d, by simp [hd], heq⟩
    · rw [List.mem_singleton] at hb
      exact ⟨c, by simp, by rw [hb, LaunchBucket.start_add, hstart]⟩
  · simpa using hshort
  all_goals
    intro now hnow
    have hcalls : ∀ d ∈ calls, d.now ≤ now := fun d hd => hnow d (by simp [hd])
    have htotal := htotals now (hnow c (by simp))
    simp only [PoolHealth.total_append, PoolHealth.total_singleton, h.launched now hcalls, h.overflowed now hcalls, hstart] at htotal
    simp only [PoolHealth.total_append, PoolHealth.total_singleton, LaunchBucket.start_add, hstart, launchesSince_append]
    cases hfull : c.overflowed <;> cases hin : inWindow now c.start <;> simp [LaunchBucket.add, hin] at htotal ⊢ <;> omega

end Tallied

theorem tallied_counted {calls : List LaunchCount} (hcalls : calls.Pairwise fun c d => c.now ≤ d.now) :
    Tallied calls (PoolHealth.counted calls).window := by
  induction calls using List.reverseRecOn with
  | nil => exact ⟨List.Pairwise.nil, by simp [PoolHealth.counted], by decide, by simp [PoolHealth.counted, PoolHealth.total, launchesSince], by simp [PoolHealth.counted, PoolHealth.total, launchesSince]⟩
  | append_singleton calls c ih =>
    rw [List.pairwise_append] at hcalls
    have hstep := (ih hcalls.1).count (c := c) fun d hd => hcalls.2.2 d hd c (by simp)
    rwa [PoolHealth.counted, List.foldl_append]

/-- **Overflow window.** Read at any later time, the window gives exactly the launches taken and refused whose bucket began less than an hour before; no two buckets have one start, and there are at most as many as begin in an hour and one. -/
theorem recent_eq_launchesSince {calls : List LaunchCount} (hcalls : calls.Pairwise fun c d => c.now ≤ d.now) {now : Int} (hnow : ∀ c ∈ calls, c.now ≤ now) :
    (PoolHealth.counted calls).recent now = (launchesSince calls now false, launchesSince calls now true) ∧
      ((PoolHealth.counted calls).window.map LaunchBucket.start).Nodup ∧
        ((PoolHealth.counted calls).window.length : Int) ≤ overflowWindow / overflowBucket + 1 := by
  have h := tallied_counted hcalls
  refine ⟨?_, h.ascending.imp ne_of_lt, by have hshort := h.short; omega⟩
  rw [PoolHealth.recent, h.launched now hnow, h.overflowed now hnow]

/-- Three launches in two buckets, read an hour after the first one: its bucket is still stored and no longer counts. -/
theorem recent_eq_launchesSince_example :
    let calls : List LaunchCount := [⟨0, true⟩, ⟨10 * Duration.minute, false⟩, ⟨11 * Duration.minute, true⟩]
    ((PoolHealth.counted calls).window.length = 2 ∧ (PoolHealth.counted calls).recent Duration.hour = (1, 1)) ∧
      (PoolHealth.counted calls).recent Duration.hour = (launchesSince calls Duration.hour false, launchesSince calls Duration.hour true) :=
  ⟨by decide, (recent_eq_launchesSince (by decide) (by decide)).1⟩

end RunnerYard
