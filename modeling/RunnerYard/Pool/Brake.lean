import RunnerYard.Pool.Rollout

/-!
# An image that cannot serve

After a creation or a boot from the current image has failed, `replaceStale` drains no further host until one on that image is ready. The brake is a flag, and only a creation or a boot that the pool attempts can set it. Where the pool has no reason to attempt one it goes on draining: with `min_hosts` met and no launch waiting, a drained host is not replaced, and five minutes later the next one is drained.
-/

namespace RunnerYard

open Interaction

namespace Pool

/-- The tag names `digest`, and no host on it is ready. -/
def System.awaits (digest : String) (s : System) : Bool :=
  s.world.pool.image = digest && s.world.pool.imageResolved && s.world.pool.hosts.rows.all fun h => h.phase ≠ .ready || h.info.image ≠ digest

def System.fails (cfg : Config) (digest : String) (s : System) (label : Label) : Bool :=
  match s.made label with
  | some (_, .createFinished _ image (.error _), _) => image = digest
  | some (_, .returnCandidates, _) => s.world.pool.hosts.rows.any fun h =>
    (s.world.pool.returnReason cfg s.world.clock (s.world.pool.baseHosts cfg) h).any (fun r => r.1 = .bootTimeout) &&
      h.createdImage ≠ "" && h.createdImage = digest
  | _ => false

def System.replaces (s : System) (label : Label) : Bool :=
  match s.made label with
  | some (_, .replaceStale, _) => true
  | _ => false

structure Trial where
  drained : List String
  failed : Bool
  deriving DecidableEq

def noteTrial (cfg : Config) (digest : String) (trial : Trial) (s : System) (label : Label) (s' : System) : Trial where
  drained := begun s.world.pool s'.world.pool ++ trial.drained
  failed := trial.failed || s.fails cfg digest label

/-- The pool goes on without a restart, the tag stays where it is, and no host on its digest becomes ready. -/
def Awaiting (cfg : Config) (digest : String) (r : System × Trial) (label : Label) : Prop :=
  label ≠ .restart ∧ (System.step cfg label r.1).all (System.awaits digest) = true

/-- A host was drained only after the digest has been tried and has failed, but for the first. -/
def Tried (r : System × Trial) (label : Label) : Prop := r.1.replaces label = true → r.2.drained ≠ [] → r.2.failed = true

variable {cfg : Config} {digest : String} {now : Int} {p : Pool} {op : Call}

instance (r : System × Trial) (label : Label) : Decidable (Awaiting cfg digest r label) := inferInstanceAs (Decidable (_ ∧ _))

instance (r : System × Trial) (label : Label) : Decidable (Tried r label) := inferInstanceAs (Decidable (_ → _ → _))

theorem imageFailed_effect (hfailed : p.imageFailed = true) (himage : (effect cfg now op p).image = p.image) : (effect cfg now op p).imageFailed = true := by
  cases hsteers : op.steers with
  | false => exact (congrArg Course.imageFailed (course_effect cfg now p hsteers)).trans hfailed
  | true =>
    cases op with
    | followed resolved =>
      change (followed cfg now resolved p).image = p.image at himage
      show (followed cfg now resolved p).imageFailed = true
      unfold followed at himage ⊢
      split
      · split
        · exact hfailed
        · split
          · exact hfailed
          · rename_i hmoved
            simp_all
      · exact hfailed
    | replaceStale =>
      show (replaceStale cfg now p).imageFailed = true
      rcases replaceStale_cases cfg now p with heq | ⟨h, -, -, -, -, heq⟩
      · rw [heq]
        exact hfailed
      · rw [heq]
        exact (congrArg Course.imageFailed (course_update p _ _)).trans hfailed
    | returnCandidates =>
      show (p.imageFailed || _) = true
      rw [hfailed, Bool.true_or]
    | createFinished key image result =>
      show (createFinished now key image result p).imageFailed = true
      unfold createFinished
      extract_lets q backoff q₁ q₂
      cases result with
      | error err =>
        have hkept : q₁.imageFailed = true := by
          unfold q₁
          split <;> exact hfailed
        dsimp only
        split
        · rfl
        · exact hkept
      | ok host =>
        dsimp only
        split
        · exact hfailed
        · split
          · exact (congrArg Course.imageFailed (course_update q₂ _ _)).trans hfailed
          · exact hfailed
    | _ => cases hsteers

theorem imageFailed_of_fails {s : System} {label : Label} {job : Job} {choice : Choice} (hmade : s.made label = some (job, op, choice))
    (hfails : s.fails cfg digest label = true) (himage : s.world.pool.image = digest) :
    (effect cfg s.world.clock op s.world.pool).imageFailed = true := by
  unfold System.fails at hfails
  rw [hmade] at hfails
  split at hfails
  · rename_i key image err choice' heq
    injection heq with heq
    injection heq with _ heq
    injection heq with heq _
    subst heq
    show (createFinished s.world.clock key image (.error err) s.world.pool).imageFailed = true
    unfold createFinished
    extract_lets q backoff q₁ q₂
    have hsame : q₁.image = digest := by
      rw [← himage]
      unfold q₁
      split <;> rfl
    dsimp only
    rw [if_pos ((of_decide_eq_true hfails).trans hsame.symm)]
  · rename_i choice' heq
    injection heq with heq
    injection heq with _ heq
    injection heq with heq _
    subst heq
    show (s.world.pool.imageFailed || _) = true
    rw [himage]
    obtain ⟨h, hmem, hboot⟩ := List.any_eq_true.mp hfails
    rw [Bool.or_eq_true]
    exact Or.inr (List.any_eq_true.mpr ⟨h, hmem, hboot⟩)
  · cases hfails

theorem servesCurrent_of_awaits {s : System} (hfollow : cfg.follow.isSome = true) (hawaits : s.awaits digest = true) :
    s.world.pool.servesCurrent cfg = false := by
  simp only [System.awaits, Bool.and_eq_true, decide_eq_true_eq, List.all_eq_true] at hawaits
  obtain ⟨⟨himage, hresolved⟩, hhosts⟩ := hawaits
  unfold servesCurrent
  rw [List.any_eq_false]
  intro h hmem hserves
  have hother := hhosts h hmem
  simp only [Bool.and_eq_true, decide_eq_true_eq, stale, hfollow, hresolved, himage] at hserves
  simp [hserves.1] at hother
  simp [hother] at hserves

/-- The brake is on if something from the digest has failed, and one host has been drained at most. -/
structure Braked (cfg : Config) (digest : String) (r : System × Trial) : Prop where
  awaits : r.1.awaits digest = true
  braked : r.2.failed = true → r.1.world.pool.imageFailed = true
  one : r.2.drained.length ≤ 1

theorem Braked.step (hfollow : cfg.follow.isSome = true) {r r' : System × Trial} {label : Label} (h : Braked cfg digest r)
    (hlabel : Awaiting cfg digest r label) (htried : Tried r label)
    (hstep : recording (System.step cfg) (noteTrial cfg digest) label r = some r') : Braked cfg digest r' := by
  obtain ⟨s, trial⟩ := r
  obtain ⟨s', trial'⟩ := r'
  obtain ⟨hstep, htrial⟩ := recording_cases hstep
  replace hstep : System.step cfg label s = some s' := hstep
  replace htrial : trial' = noteTrial cfg digest trial s label s' := htrial
  have hawaits : s'.awaits digest = true := by
    have hnext := hlabel.2
    rw [show System.step cfg label (s, trial).1 = some s' from hstep] at hnext
    exact hnext
  have himage : ∀ {s : System}, s.awaits digest = true → s.world.pool.image = digest := fun h => by
    simp only [System.awaits, Bool.and_eq_true, decide_eq_true_eq] at h
    exact h.1.1
  have hfailed : trial'.failed = true → s'.world.pool.imageFailed = true := by
    rw [htrial]
    intro hfailed
    rcases step_pool hlabel.1 hstep with ⟨hmade, heq⟩ | ⟨job, op, choice, hmade, heq⟩
    · rw [heq]
      refine h.braked ?_
      simpa [noteTrial, System.fails, show s.made label = none from hmade] using hfailed
    · rw [heq]
      rcases Bool.or_eq_true_iff.mp hfailed with hfailed | hfails
      · refine imageFailed_effect (h.braked hfailed) ?_
        rw [← heq, himage hawaits]
        exact (himage h.awaits).symm
      · exact imageFailed_of_fails hmade hfails (himage h.awaits)
  refine ⟨hawaits, hfailed, ?_⟩
  have hone : begun s.world.pool s'.world.pool ++ trial.drained = trial.drained ∨ trial.drained = [] ∧ (begun s.world.pool s'.world.pool).length ≤ 1 := by
    rcases step_pool hlabel.1 hstep with ⟨-, heq⟩ | ⟨job, op, choice, hmade, heq⟩
    · rw [heq, begun_self]
      exact Or.inl rfl
    rw [heq]
    by_cases hop : op = .replaceStale
    · subst hop
      by_cases hfirst : trial.drained = []
      · refine Or.inr ⟨hfirst, ?_⟩
        rcases begun_replaceStale cfg s.world.clock s.world.pool with hnone | ⟨id, hone⟩
        · rw [show begun s.world.pool (effect cfg s.world.clock .replaceStale s.world.pool) = [] from hnone]
          exact Nat.zero_le 1
        · rw [show begun s.world.pool (effect cfg s.world.clock .replaceStale s.world.pool) = [id] from hone]
          exact Nat.le_refl 1
      · -- the brake is on, so that nothing is drained
        have hbraked := h.braked (htried (by simp only [System.replaces, hmade]) hfirst)
        refine Or.inl ?_
        rcases replaceStale_cases cfg s.world.clock s.world.pool with hsame | ⟨_, -, -, -, hcurrent, -⟩
        · rw [show effect cfg s.world.clock .replaceStale s.world.pool = s.world.pool from hsame, begun_self]
          rfl
        · have hserves := hcurrent hbraked
          rw [servesCurrent_of_awaits hfollow h.awaits] at hserves
          cases hserves
    · rw [begun_effect hop]
      exact Or.inl rfl
  rw [htrial]
  show (begun s.world.pool s'.world.pool ++ trial.drained).length ≤ 1
  rcases hone with hsame | ⟨hfirst, hone⟩
  · rw [hsame]
    exact h.one
  · rw [hfirst, List.append_nil]
    exact hone

namespace Demo

def started (minHosts : Int) : Option (System × Trial) :=
  (replay (System.step (following minHosts)) resolved (System.initial (following minHosts) noon twoMachines)).map fun s =>
    (s, { drained := [], failed := s.world.pool.imageFailed })

def failedCreation : List Label := [.advance 0 (.created (.error (.text "image cannot boot")) none), .advance 0 .none]

end Demo

end Pool

end RunnerYard
