import RunnerYard.Interaction.Program

/-!
# Threads over one world

Threads that run side by side and call one at a time, in any order. A call may fork further threads. What a thread is for is its key; threads with equal keys may run at the same time.

`CrewOutline` packages a proof about such a system in the manner of rely and guarantee. Each key has what a thread of that key ensures when it makes a call (`guard`) and what it needs of the others (`rely`). Which pairs of threads may exist together is `compat`; a thread need not bear what one that it is not compatible with would do. `CrewSafe.advance` is the step lemma of the whole system, and `CrewSafe.guard` says what it is for: whatever a thread does, it does under its guard.
-/

namespace Interaction

variable {Op Key W C ρ : Type} {Ans : Op → Type}

abbrev Threads {Op : Type} (Ans : Op → Type) (Key ρ : Type) := List (Key × Prog Ans ρ)

structure Crew {Op : Type} (Ans : Op → Type) (Key ρ C W : Type) where
  program : Key → Prog Ans ρ
  exec : (op : Op) → C → W → Option (Ans op × W)
  forks : (op : Op) → Ans op → List Key

namespace Threads

def pending (threads : Threads Ans Key ρ) (i : Nat) : Option (Key × Op) :=
  match threads[i]? with
  | some (key, .call op _) => some (key, op)
  | _ => none

def resume (threads : Threads Ans Key ρ) (i : Nat) (key : Key) : Prog Ans ρ → Threads Ans Key ρ
  | .pure _ => threads.eraseIdx i
  | .call op next => threads.set i (key, .call op next)

theorem resume_cases (threads : Threads Ans Key ρ) (i : Nat) (key : Key) (p : Prog Ans ρ) {t : Key × Prog Ans ρ}
    (ht : t ∈ threads.resume i key p) : (t = (key, p) ∧ ∃ op next, p = .call op next) ∨ ∃ j, j ≠ i ∧ threads[j]? = some t := by
  cases p with
  | pure a =>
    obtain ⟨j, hj⟩ := List.mem_iff_getElem?.mp ht
    rw [resume, List.getElem?_eraseIdx] at hj
    split at hj
    · rename_i hlt
      exact Or.inr ⟨j, by omega, hj⟩
    · rename_i hlt
      exact Or.inr ⟨j + 1, by omega, hj⟩
  | call op next =>
    obtain ⟨j, hj⟩ := List.mem_iff_getElem?.mp ht
    rw [resume, List.getElem?_set] at hj
    split at hj
    · split at hj
      · simp only [Option.some.injEq] at hj
        exact Or.inl ⟨hj.symm, op, next, rfl⟩
      · simp at hj
    · rename_i hne
      exact Or.inr ⟨j, fun heq => hne heq.symm, hj⟩

end Threads

namespace Crew

variable (M : Crew Ans Key ρ C W)

def fork (key : Key) : Key × Prog Ans ρ := (key, M.program key)

def advance (i : Nat) (choice : C) (threads : Threads Ans Key ρ) (w : W) : Option (Threads Ans Key ρ × W) :=
  match threads[i]? with
  | some (key, .call op next) =>
    (M.exec op choice w).map fun r => (threads.resume i key (next r.1) ++ (M.forks op r.1).map M.fork, r.2)
  | _ => none

/-- What the thread at `i` returns with its next call, if it does. -/
def ended (i : Nat) (choice : C) (threads : Threads Ans Key ρ) (w : W) : Option (Key × ρ) :=
  match threads[i]? with
  | some (key, .call op next) =>
    (M.exec op choice w).bind fun r =>
      match next r.1 with
      | .pure result => some (key, result)
      | .call _ _ => none
  | _ => none

variable {M} {i : Nat} {choice : C} {threads threads' : Threads Ans Key ρ} {w w' : W}

theorem advance_cases (h : M.advance i choice threads w = some (threads', w')) :
    ∃ key op next answer, threads[i]? = some (key, .call op next) ∧ M.exec op choice w = some (answer, w') ∧
      threads' = threads.resume i key (next answer) ++ (M.forks op answer).map M.fork := by
  unfold advance at h
  split at h
  · rename_i key op next hthread
    obtain ⟨⟨answer, w₁⟩, hexec, heq⟩ := Option.map_eq_some_iff.mp h
    simp only [Prod.mk.injEq] at heq
    obtain ⟨rfl, rfl⟩ := heq
    exact ⟨key, op, next, answer, hthread, hexec, rfl⟩
  · cases h

theorem ended_cases {key : Key} {result : ρ} (h : M.ended i choice threads w = some (key, result)) :
    ∃ op next answer w', threads[i]? = some (key, .call op next) ∧ M.exec op choice w = some (answer, w') ∧ next answer = .pure result := by
  unfold ended at h
  split at h
  · rename_i key' op next hthread
    obtain ⟨⟨answer, w'⟩, hexec, heq⟩ := Option.bind_eq_some_iff.mp h
    dsimp only at heq
    split at heq
    · rename_i result' hreturn
      simp only [Option.some.injEq, Prod.mk.injEq] at heq
      obtain ⟨rfl, rfl⟩ := heq
      exact ⟨op, next, answer, w', hthread, hexec, hreturn⟩
    · cases heq
  · cases h

theorem forall_resume {I : Key × Prog Ans ρ → Prop} {key : Key} {p : Prog Ans ρ} {children : List Key} (hself : I (key, p))
    (hothers : ∀ j t, j ≠ i → threads[j]? = some t → I t) (hforks : ∀ child ∈ children, I (M.fork child)) :
    ∀ t ∈ threads.resume i key p ++ children.map M.fork, I t := by
  intro t ht
  rcases List.mem_append.mp ht with ht | ht
  · rcases Threads.resume_cases threads i key p ht with ⟨rfl, -⟩ | ⟨j, hne, hj⟩
    · exact hself
    · exact hothers j t hne hj
  · obtain ⟨child, hchild, rfl⟩ := List.mem_map.mp ht
    exact hforks child hchild

end Crew

theorem Threads.pending_of_getElem? {threads : Threads Ans Key ρ} {i : Nat} {key : Key} {op : Op} {next : Ans op → Prog Ans ρ}
    (h : threads[i]? = some (key, .call op next)) : threads.pending i = some (key, op) := by
  simp only [Threads.pending, h]

theorem Threads.getElem?_of_pending {threads : Threads Ans Key ρ} {i : Nat} {key : Key} {op : Op} (h : threads.pending i = some (key, op)) :
    ∃ next, threads[i]? = some (key, .call op next) := by
  unfold Threads.pending at h
  split at h
  · rename_i key' op' next hthread
    simp only [Option.some.injEq, Prod.mk.injEq] at h
    obtain ⟨rfl, rfl⟩ := h
    exact ⟨next, hthread⟩
  · cases h

structure CrewOutline {Op : Type} (Ans : Op → Type) (Key ρ C W : Type) where
  allowed : Op → C → W → Prop
  inv : W → Prop
  compat : W → Key → Key → Prop
  guard : Key → Op → W → Prop
  rely : Key → W → W → Prop
  post : Key → ρ → W → Prop

namespace CrewOutline

variable (O : CrewOutline Ans Key ρ C W) (M : Crew Ans Key ρ C W)

/-- A thread of this key makes the call, under its guard and an allowed choice. -/
structure Makes (key : Key) (op : Op) (w : W) (answer : Ans op) (w' : W) : Prop where
  inv : O.inv w
  guard : O.guard key op w
  exec : ∃ choice, O.allowed op choice w ∧ M.exec op choice w = some (answer, w')

def logic (key : Key) : Logic Ans W where
  step op w answer w' := O.Makes M key op w answer w' ∧ O.inv w'
  guard := O.guard key
  rely w w' := O.rely key w w' ∧ O.inv w'

def ThreadSafe (t : Key × Prog Ans ρ) (w : W) : Prop :=
  ∀ w', O.rely t.1 w w' → O.inv w' → Prog.Safe (O.logic M t.1) t.2 (O.post t.1) w'

structure Lawful : Prop where
  rely_refl : ∀ key w, O.rely key w w
  rely_trans : ∀ {key w w' w''}, O.rely key w w' → O.rely key w' w'' → O.rely key w w''
  compat_symm : ∀ {w key other}, O.compat w key other → O.compat w other key
  inv_step : ∀ {key op w answer w'}, O.Makes M key op w answer w' → O.inv w'
  compat_step : ∀ {key op w answer w' k k'}, O.Makes M key op w answer w' → O.compat w k k' → O.compat w' k k'
  interfere : ∀ {key other op w answer w'}, O.Makes M key op w answer w' → O.compat w key other → O.rely other w w'
  forks_pairwise : ∀ {key op w answer w'}, O.Makes M key op w answer w' → (M.forks op answer).Pairwise (O.compat w')
  forks_compat : ∀ {key op w answer w' other op' child}, O.Makes M key op w answer w' → child ∈ M.forks op answer →
    O.guard other op' w → O.compat w' other child
  forks_safe : ∀ {key op w answer w' child}, O.Makes M key op w answer w' → child ∈ M.forks op answer →
    O.ThreadSafe M (M.fork child) w' ∧ ∃ op next, M.program child = .call op next

structure CrewSafe (threads : Threads Ans Key ρ) (w : W) : Prop where
  inv : O.inv w
  compat : threads.Pairwise fun a b => O.compat w a.1 b.1
  calls : ∀ t ∈ threads, ∃ op next, t.2 = .call op next
  safe : ∀ t ∈ threads, O.ThreadSafe M t w

variable {O M}

variable {w : W} {key : Key} {threads : Threads Ans Key ρ}

theorem ThreadSafe.rely (hO : O.Lawful M) {t : Key × Prog Ans ρ} {w' : W} (h : O.ThreadSafe M t w) (hrely : O.rely t.1 w w') :
    O.ThreadSafe M t w' :=
  fun w'' hrely' hinv => h w'' (hO.rely_trans hrely hrely') hinv

theorem ThreadSafe.guard (hO : O.Lawful M) {op : Op} {next : Ans op → Prog Ans ρ}
    (h : O.ThreadSafe M (key, .call op next) w) (hinv : O.inv w) : O.guard key op w :=
  (h w (hO.rely_refl key w) hinv).1

theorem ThreadSafe.next (hO : O.Lawful M) {op : Op} {next : Ans op → Prog Ans ρ} {w' : W} {answer : Ans op}
    (h : O.ThreadSafe M (key, .call op next) w) (hmakes : O.Makes M key op w answer w') : O.ThreadSafe M (key, next answer) w' :=
  fun w'' hrely hinv => (h w (hO.rely_refl key w) hmakes.inv).2 answer w' ⟨hmakes, hO.inv_step hmakes⟩ w'' ⟨hrely, hinv⟩

theorem compat_of_ne (hO : O.Lawful M) (h : O.CrewSafe M threads w) {i j : Nat}
    {s t : Key × Prog Ans ρ} (hne : i ≠ j) (hi : threads[i]? = some s) (hj : threads[j]? = some t) : O.compat w s.1 t.1 := by
  obtain ⟨hilt, rfl⟩ := List.getElem?_eq_some_iff.mp hi
  obtain ⟨hjlt, rfl⟩ := List.getElem?_eq_some_iff.mp hj
  rcases Nat.lt_or_gt_of_ne hne with hlt | hgt
  · exact List.pairwise_iff_getElem.mp h.compat i j hilt hjlt hlt
  · exact hO.compat_symm (List.pairwise_iff_getElem.mp h.compat j i hjlt hilt hgt)

theorem CrewSafe.makes (hO : O.Lawful M) {w' : W} (h : O.CrewSafe M threads w) {i : Nat}
    {choice : C} {op : Op} {next : Ans op → Prog Ans ρ} {answer : Ans op} (hthread : threads[i]? = some (key, .call op next))
    (hallowed : O.allowed op choice w) (hexec : M.exec op choice w = some (answer, w')) : O.Makes M key op w answer w' where
  inv := h.inv
  guard := (h.safe _ (List.mem_of_getElem? hthread)).guard hO h.inv
  exec := ⟨choice, hallowed, hexec⟩

theorem pairwise_resume {R : Key → Key → Prop} (h : threads.Pairwise fun a b => R a.1 b.1) {i : Nat}
    {p : Prog Ans ρ} (hthread : threads[i]? = some (key, p)) (q : Prog Ans ρ) :
    (threads.resume i key q).Pairwise fun a b => R a.1 b.1 := by
  cases q with
  | pure a => exact h.sublist (List.eraseIdx_sublist threads i)
  | call op next =>
    have hkeys : (threads.set i (key, .call op next)).map Prod.fst = threads.map Prod.fst := by
      apply List.ext_getElem?
      intro j
      rw [List.getElem?_map, List.getElem?_map, List.getElem?_set]
      split
      · rename_i heq
        subst heq
        obtain ⟨hlt, hget⟩ := List.getElem?_eq_some_iff.mp hthread
        rw [if_pos hlt, hthread]
        rfl
      · rfl
    have hmap : (threads.map Prod.fst).Pairwise R := List.pairwise_map.mpr h
    rw [← hkeys] at hmap
    exact List.pairwise_map.mp hmap

theorem CrewSafe.advance (hO : O.Lawful M) {threads' : Threads Ans Key ρ} {w' : W} {i : Nat} {choice : C}
    (h : O.CrewSafe M threads w) (hallowed : ∀ key op, threads.pending i = some (key, op) → O.allowed op choice w)
    (hstep : M.advance i choice threads w = some (threads', w')) : O.CrewSafe M threads' w' := by
  obtain ⟨key, op, next, answer, hthread, hexec, rfl⟩ := Crew.advance_cases hstep
  have hmakes : O.Makes M key op w answer w' := h.makes hO hthread (hallowed key op (Threads.pending_of_getElem? hthread)) hexec
  have hself : O.ThreadSafe M (key, next answer) w' := (h.safe _ (List.mem_of_getElem? hthread)).next hO hmakes
  have hothers : ∀ (j : Nat) (t : Key × Prog Ans ρ), j ≠ i → threads[j]? = some t → O.ThreadSafe M t w' := fun j t hne hj =>
    (h.safe t (List.mem_of_getElem? hj)).rely hO (hO.interfere hmakes (compat_of_ne hO h hne.symm hthread hj))
  -- every thread that was there is pending a call under its guard, also the one that has just moved
  have hguarded : ∀ (j : Nat) (t : Key × Prog Ans ρ), threads[j]? = some t → ∃ op', O.guard t.1 op' w := by
    intro j t hj
    have hmem := List.mem_of_getElem? hj
    obtain ⟨op', next', hcall⟩ := h.calls t hmem
    obtain ⟨k, p⟩ := t
    subst hcall
    exact ⟨op', (h.safe _ hmem).guard hO h.inv⟩
  refine ⟨hO.inv_step hmakes, ?_, ?_, ?_⟩
  · rw [List.pairwise_append]
    refine ⟨(pairwise_resume h.compat hthread _).imp fun hcompat => hO.compat_step hmakes hcompat, ?_, ?_⟩
    · rw [List.pairwise_map]
      exact hO.forks_pairwise hmakes
    · intro t ht s hs
      obtain ⟨child, hchild, rfl⟩ := List.mem_map.mp hs
      rcases Threads.resume_cases threads i key (next answer) ht with ⟨rfl, -⟩ | ⟨j, -, hj⟩
      · exact hO.forks_compat hmakes hchild hmakes.guard
      · obtain ⟨op', hguard⟩ := hguarded j t hj
        exact hO.forks_compat hmakes hchild hguard
  · intro t ht
    rcases List.mem_append.mp ht with ht | ht
    · rcases Threads.resume_cases threads i key (next answer) ht with ⟨rfl, hcall⟩ | ⟨j, -, hj⟩
      · exact hcall
      · exact h.calls t (List.mem_of_getElem? hj)
    · obtain ⟨child, hchild, rfl⟩ := List.mem_map.mp ht
      exact (hO.forks_safe hmakes hchild).2
  · exact Crew.forall_resume hself hothers fun child hchild => (hO.forks_safe hmakes hchild).1

theorem CrewSafe.env (hO : O.Lawful M) {w' : W} (h : O.CrewSafe M threads w) (hinv : O.inv w')
    (hrely : ∀ key, O.rely key w w') (hcompat : ∀ k k', O.compat w k k' → O.compat w' k k') : O.CrewSafe M threads w' where
  inv := hinv
  compat := h.compat.imp fun hkeys => hcompat _ _ hkeys
  calls := h.calls
  safe t ht := (h.safe t ht).rely hO (hrely t.1)

theorem CrewSafe.spawn (h : O.CrewSafe M threads w)
    (hcompat : ∀ t ∈ threads, O.compat w t.1 key) (hcalls : ∃ op next, M.program key = .call op next)
    (hsafe : O.ThreadSafe M (M.fork key) w) : O.CrewSafe M (threads ++ [M.fork key]) w where
  inv := h.inv
  compat := List.pairwise_append.mpr ⟨h.compat, List.pairwise_singleton _ _, fun t ht s hs => by
    rw [List.mem_singleton] at hs
    exact hs ▸ hcompat t ht⟩
  calls t ht := by
    rcases List.mem_append.mp ht with ht | ht
    · exact h.calls t ht
    · rw [List.mem_singleton] at ht
      exact ht ▸ hcalls
  safe t ht := by
    rcases List.mem_append.mp ht with ht | ht
    · exact h.safe t ht
    · rw [List.mem_singleton] at ht
      exact ht ▸ hsafe

theorem CrewSafe.empty (hinv : O.inv w) : O.CrewSafe M [] w where
  inv := hinv
  compat := List.Pairwise.nil
  calls _ ht := absurd ht List.not_mem_nil
  safe _ ht := absurd ht List.not_mem_nil

theorem CrewSafe.guard (hO : O.Lawful M) (h : O.CrewSafe M threads w) {i : Nat}
    {op : Op} (hpending : threads.pending i = some (key, op)) : O.guard key op w := by
  obtain ⟨next, hthread⟩ := Threads.getElem?_of_pending hpending
  exact (h.safe _ (List.mem_of_getElem? hthread)).guard hO h.inv

end CrewOutline

end Interaction
