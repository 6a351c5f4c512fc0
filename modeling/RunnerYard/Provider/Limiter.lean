import Mathlib.Algebra.Order.Field.Rat
import Mathlib.Tactic.FieldSimp
import Mathlib.Tactic.Linarith
import Mathlib.Tactic.Positivity
import Mathlib.Tactic.Ring

/-!
# The rate limiter

`Limiter` of `retry.go`, with exact arithmetic. `Wait` takes its token under the lock and sleeps after it has released it, so the calls of any number of goroutines are a sequence of arrivals, and each returns when its own delay is over. Instants are seconds from Go's zero time.

A call that has to sleep is paid from the refill that comes while it sleeps, but `Wait` leaves the bucket as if that refill were still to be given away: it empties the bucket at the arrival of the call. Until the bucket would have been full anyway, later calls are let through on tokens that were spent before.
-/

namespace RunnerYard

namespace Provider

structure Limiter where
  rate : ℚ
  burst : ℚ
  tokens : ℚ
  last : ℚ
  deriving DecidableEq, Repr

def newLimiter (rate : ℚ) (burst : Int) : Limiter :=
  let burst := if burst < 1 then 1 else burst
  { rate, burst, tokens := burst, last := 0 }

namespace Limiter

/-- The tokens that a call at `now` finds. The first one finds the bucket as it was made. -/
def refilled (l : Limiter) (now : ℚ) : ℚ := if l.last = 0 then l.tokens else min l.burst (l.tokens + (now - l.last) * l.rate)

/-- `Wait` at `now`: the limiter after it, and how long the call sleeps. -/
def wait (l : Limiter) (now : ℚ) : Limiter × ℚ :=
  if l.rate ≤ 0 then (l, 0)
  else if 1 ≤ l.refilled now then ({ l with tokens := l.refilled now - 1, last := now }, 0)
  else ({ l with tokens := 0, last := now }, (1 - l.refilled now) / l.rate)

def returns : Limiter → List ℚ → List ℚ
  | _, [] => []
  | l, now :: rest => (now + (l.wait now).2) :: (l.wait now).1.returns rest

/-- After a call that has slept, the next one comes no earlier than the bucket takes to fill. -/
def Spaced : Limiter → List ℚ → Prop
  | l, now :: next :: rest => (0 < (l.wait now).2 → now + (l.wait now).2 + l.burst / l.rate ≤ next) ∧ (l.wait now).1.Spaced (next :: rest)
  | _, _ => True

instance decidableSpaced : (l : Limiter) → (arrivals : List ℚ) → Decidable (l.Spaced arrivals)
  | _, [] => instDecidableTrue
  | _, [_] => instDecidableTrue
  | l, now :: next :: rest =>
    have := decidableSpaced (l.wait now).1 (next :: rest)
    inferInstanceAs (Decidable ((_ → _) ∧ _))

/-- The returns in an interval of length `T` from `s` on. -/
def within (s T : ℚ) (instants : List ℚ) : Nat := (instants.filter fun t => s ≤ t ∧ t ≤ s + T).length

variable {l : Limiter} {now next t₀ φ e : ℚ} {rest arrivals : List ℚ}

/-! ### One call -/

theorem wait_of_token (hrate : 0 < l.rate) (h : 1 ≤ l.refilled now) : l.wait now = ({ l with tokens := l.refilled now - 1, last := now }, 0) := by
  rw [wait, if_neg (not_le.mpr hrate), if_pos h]

theorem wait_of_empty (hrate : 0 < l.rate) (h : l.refilled now < 1) :
    l.wait now = ({ l with tokens := 0, last := now }, (1 - l.refilled now) / l.rate) := by
  rw [wait, if_neg (not_le.mpr hrate), if_neg (not_le.mpr h)]

@[simp] theorem wait_rate (l : Limiter) (now : ℚ) : (l.wait now).1.rate = l.rate := by
  unfold wait
  split
  · rfl
  · split <;> rfl

@[simp] theorem wait_burst (l : Limiter) (now : ℚ) : (l.wait now).1.burst = l.burst := by
  unfold wait
  split
  · rfl
  · split <;> rfl

theorem refilled_le_burst (h : l.tokens ≤ l.burst) (now : ℚ) : l.refilled now ≤ l.burst := by
  unfold refilled
  split
  · exact h
  · exact min_le_left _ _

/-- The bucket as it should be: `φ` tokens at `t₀`, when the last call returned. -/
structure Level (l : Limiter) (φ t₀ : ℚ) (arrivals : List ℚ) : Prop where
  rate : 0 < l.rate
  burst : 1 ≤ l.burst
  tokens : l.tokens ≤ l.burst
  filled : 0 ≤ φ
  sorted : arrivals.Pairwise (· ≤ ·)
  next : ∀ now ∈ arrivals.head?, t₀ ≤ now ∧ l.refilled now ≤ φ + (now - t₀) * l.rate
  spaced : l.Spaced arrivals

theorem Spaced.tail (h : l.Spaced (now :: rest)) : (l.wait now).1.Spaced rest := by
  cases rest with
  | nil => trivial
  | cons next rest => exact h.2

theorem Level.step (h : l.Level φ t₀ (now :: rest)) : ∃ φ', (l.wait now).1.Level φ' (now + (l.wait now).2) rest ∧ t₀ ≤ now + (l.wait now).2 ∧
    1 + φ' ≤ φ + (now + (l.wait now).2 - t₀) * l.rate ∧ 1 + φ' ≤ l.burst := by
  obtain ⟨hnow, hrefilled⟩ := h.next now rfl
  have hburst := refilled_le_burst h.tokens now
  have hsorted := List.pairwise_cons.mp h.sorted
  have hspaced := h.spaced.tail
  have hlater : ∀ next ∈ rest.head?, now ≤ next := fun next hnext => hsorted.1 next (List.mem_of_head? hnext)
  rcases le_or_gt 1 (l.refilled now) with htoken | hempty
  · rw [wait_of_token h.rate htoken] at hspaced ⊢
    refine ⟨l.refilled now - 1, ⟨h.rate, h.burst, by dsimp only; linarith, by linarith, hsorted.2, fun next hnext => ⟨?_, ?_⟩, hspaced⟩, ?_, ?_, ?_⟩
    · simpa using hlater next hnext
    · have hgain : 0 ≤ (next - now) * l.rate := mul_nonneg (by linarith [hlater next hnext]) h.rate.le
      simp only [refilled, add_zero]
      split
      · linarith
      · exact min_le_right _ _
    · simpa using hnow
    · simpa using hrefilled
    · linarith
  · have hsleep : 0 < (1 - l.refilled now) / l.rate := div_pos (by linarith) h.rate
    have hpaid : (1 - l.refilled now) / l.rate * l.rate = 1 - l.refilled now := div_mul_cancel₀ _ h.rate.ne'
    have hpause : ∀ next ∈ rest.head?, now + (l.wait now).2 + l.burst / l.rate ≤ next := by
      intro next hnext
      have hall := h.spaced
      obtain ⟨others, rfl⟩ : ∃ others, rest = next :: others := by
        cases rest with
        | nil => cases hnext
        | cons first others => exact ⟨others, by rw [Option.some.inj hnext]⟩
      refine hall.1 ?_
      rw [wait_of_empty h.rate hempty]
      exact hsleep
    rw [wait_of_empty h.rate hempty] at hspaced hpause ⊢
    dsimp only at hpause ⊢
    refine ⟨0, ⟨h.rate, h.burst, by dsimp only; linarith [h.burst], le_refl 0, hsorted.2, fun next hnext => ⟨?_, ?_⟩, hspaced⟩, ?_, ?_, ?_⟩
    · have hfill : 0 ≤ l.burst / l.rate := div_nonneg (by linarith [h.burst]) h.rate.le
      linarith [hpause next hnext]
    · -- the bucket is full again, and that is all there is to give
      have hfull : l.burst / l.rate * l.rate ≤ (next - (now + (1 - l.refilled now) / l.rate)) * l.rate :=
        mul_le_mul_of_nonneg_right (by linarith [hpause next hnext]) h.rate.le
      rw [div_mul_cancel₀ _ h.rate.ne'] at hfull
      have := @refilled_le_burst { l with tokens := 0, last := now } (by dsimp only; linarith [h.burst]) next
      dsimp only at this ⊢
      linarith
    · linarith
    · nlinarith [h.rate]
    · linarith [h.burst]

/-! ### All calls -/

theorem Level.le_returns (h : l.Level φ t₀ arrivals) : ∀ t ∈ l.returns arrivals, t₀ ≤ t := by
  induction arrivals generalizing l φ t₀ with
  | nil => simp [returns]
  | cons now rest ih =>
    obtain ⟨φ', hstep, hle, -, -⟩ := h.step
    intro t ht
    rcases List.mem_cons.mp ht with rfl | ht
    · exact hle
    · exact hle.trans (ih hstep t ht)

theorem Level.returns_until (h : l.Level φ t₀ arrivals) (he : t₀ ≤ e) : (((l.returns arrivals).filter (· ≤ e)).length : ℚ) ≤ φ + (e - t₀) * l.rate := by
  induction arrivals generalizing l φ t₀ with
  | nil =>
    have := mul_nonneg (show 0 ≤ e - t₀ by linarith) h.rate.le
    simp only [returns, List.filter_nil, List.length_nil, Nat.cast_zero]
    linarith [h.filled]
  | cons now rest ih =>
    obtain ⟨φ', hstep, hle, htaken, -⟩ := h.step
    rw [returns]
    rcases le_or_gt (now + (l.wait now).2) e with hback | hlate
    · have hrest := ih hstep hback
      rw [wait_rate] at hrest
      rw [List.filter_cons_of_pos (by simpa using hback), List.length_cons, Nat.cast_add, Nat.cast_one]
      linarith
    · rw [List.filter_eq_nil_iff.mpr]
      · have := mul_nonneg (show 0 ≤ e - t₀ by linarith) h.rate.le
        simp only [List.length_nil, Nat.cast_zero]
        linarith [h.filled]
      · intro t ht
        rcases List.mem_cons.mp ht with rfl | ht
        · simpa using hlate
        · simpa using hlate.trans_le (hstep.le_returns t ht)

theorem Level.within_le (h : l.Level φ t₀ arrivals) {s T : ℚ} (hT : 0 ≤ T) : (within s T (l.returns arrivals) : ℚ) ≤ l.burst + l.rate * T := by
  have hnone : (0 : ℚ) ≤ l.burst + l.rate * T := by
    have := mul_nonneg h.rate.le hT
    linarith [h.burst]
  induction arrivals generalizing l φ t₀ with
  | nil => simpa [within, returns] using hnone
  | cons now rest ih =>
    obtain ⟨φ', hstep, -, -, hburst⟩ := h.step
    rw [returns, within]
    rcases lt_or_ge (now + (l.wait now).2) s with hbefore | hafter
    · -- the interval begins later
      rw [List.filter_cons_of_neg (by simp [hbefore])]
      have hrest := ih hstep (by simpa using hnone)
      rw [wait_rate, wait_burst] at hrest
      exact hrest
    · rcases le_or_gt (now + (l.wait now).2) (s + T) with hin | hlate
      · have hrest := hstep.returns_until hin
        rw [wait_rate] at hrest
        rw [List.filter_cons_of_pos (by simp [hafter, hin]), List.length_cons, Nat.cast_add, Nat.cast_one]
        have hsub : ((((l.wait now).1.returns rest).filter fun t => s ≤ t ∧ t ≤ s + T).length : ℚ) ≤
            ((((l.wait now).1.returns rest).filter (· ≤ s + T)).length : ℚ) := by
          rw [Nat.cast_le]
          refine (List.monotone_filter_right _ fun t ht => ?_).length_le
          simp only [decide_eq_true_eq] at ht ⊢
          exact ht.2
        have hgain : (s + T - (now + (l.wait now).2)) * l.rate ≤ T * l.rate := mul_le_mul_of_nonneg_right (by linarith) h.rate.le
        linarith
      · rw [List.filter_eq_nil_iff.mpr]
        · simpa using hnone
        · intro t ht
          have hge : now + (l.wait now).2 ≤ t := by
            rcases List.mem_cons.mp ht with rfl | ht
            · exact le_refl _
            · exact hstep.le_returns t ht
          simp only [decide_eq_true_eq, not_and, not_le]
          exact fun _ => hlate.trans_le hge

/-- Where every call that had to sleep is followed by a pause in which the bucket fills, no interval of length `T` sees more than `burst + rate * T` returns. -/
theorem rate_kept_if_spaced {rate : ℚ} {burst : Int} (hrate : 0 < rate) (hburst : 1 ≤ burst) {arrivals : List ℚ} (hsorted : arrivals.Pairwise (· ≤ ·))
    (hspaced : (newLimiter rate burst).Spaced arrivals) (s T : ℚ) (hT : 0 ≤ T) :
    (within s T ((newLimiter rate burst).returns arrivals) : ℚ) ≤ burst + rate * T := by
  have hnew : newLimiter rate burst = { rate, burst := burst, tokens := burst, last := 0 } := by
    rw [newLimiter, if_neg (by omega)]
  have hburst' : (1 : ℚ) ≤ burst := by exact_mod_cast hburst
  have hlevel : (newLimiter rate burst).Level burst (arrivals.headD 0) arrivals := by
    rw [hnew] at hspaced ⊢
    refine ⟨hrate, hburst', le_refl _, by linarith, hsorted, fun now hnow => ?_, hspaced⟩
    have hfirst : arrivals.headD 0 = now := by rw [List.headD_eq_head?_getD, hnow, Option.getD_some]
    rw [hfirst]
    simp [refilled]
  have hwithin := hlevel.within_le hT (s := s)
  rw [hnew] at hwithin ⊢
  exact hwithin

theorem rate_kept_if_spaced_once : (newLimiter 1 1).Spaced [10, 10, 12, 13] ∧ (within 10 3 ((newLimiter 1 1).returns [10, 10, 12, 13]) : ℚ) ≤ (1 : Int) + 1 * 3 :=
  ⟨by decide +kernel, rate_kept_if_spaced (by decide) (by decide) (by decide +kernel) (by decide +kernel) 10 3 (by decide)⟩

/-- The third call goes through on the refill the second sleeps for, so two calls return at once from a bucket of one. -/
theorem refill_spent_twice : (newLimiter 1 1).returns [10, 10, 11] = [10, 11, 11] ∧
    ¬(within 11 0 ((newLimiter 1 1).returns [10, 10, 11]) : ℚ) ≤ (1 : Int) + 1 * 0 := by
  decide +kernel

end Limiter

end Provider

end RunnerYard
