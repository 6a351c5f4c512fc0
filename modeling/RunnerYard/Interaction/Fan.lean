import RunnerYard.Interaction.Program
import Mathlib.Data.List.Nodup

/-!
# Programs that fan out

A main program that can also start a bounded pool of threads and wait for all of them. Every thread has a key of its own, runs the same program for it, and hands its result to a shared summary when it ends; a summary that says stop keeps further threads from starting. The threads' calls interleave one by one.

`Outline` packages a proof about such a machine. It has an invariant of the world that every guarded call keeps, and for every key what others may do to the part of the world that belongs to it (`drift`) and what holds of that part while no thread works on it (`closed`). A thread is verified once, alone, for its own key. What only holds because of who makes a call, and how often, is the `aim`: the main program keeps it by itself, and while a pool runs it follows from the pool's own invariant, which knows the world the pool started in and the keys of its threads. `Outline.move_preserves` is the step lemma of the whole machine.
-/

namespace Interaction

variable {Op Req Key W C β S γ : Type} {Ans : Op → Type}

def MainAns (Ans : Op → Type) (Req S : Type) : Op ⊕ Req → Type
  | .inl op => Ans op
  | .inr _ => S

def Prog.lift {α : Type} (p : Prog Ans α) : Prog (MainAns Ans Req S) α := p.embed Sum.inl fun _ answer => answer

def Prog.fanOut (req : Req) : Prog (MainAns Ans Req S) S := .call (.inr req) .pure

structure Fan {Op : Type} (Ans : Op → Type) (Req Key β S : Type) where
  thread : Req → Key → Prog Ans β
  count : Req → Nat
  limit : Req → Nat
  start : S
  absorb : S → β → S
  stopped : S → Bool

/-- What a process is doing. Of a pool, `spawned` are the keys of all threads started so far. -/
inductive Activity {Op : Type} (Ans : Op → Type) (Req Key β S γ : Type) : Type
  | main (p : Prog (MainAns Ans Req S) γ)
  | pool (req : Req) (spawned : List Key) (remaining : Nat) (threads : List (Key × Prog Ans β)) (sum : S)
      (next : S → Prog (MainAns Ans Req S) γ)

inductive Move (Key C : Type) : Type
  | call (choice : C)
  | enter
  | spawn (key : Key)
  | halt
  | advance (i : Nat) (choice : C)
  | finish (i : Nat)
  | leave
  deriving DecidableEq, Repr

namespace Fan

variable [DecidableEq Key]

def move (F : Fan Ans Req Key β S) (exec : (op : Op) → C → W → Option (Ans op × W)) (fresh : Key → W → Bool) :
    Move Key C → Activity Ans Req Key β S γ → W → Option (Activity Ans Req Key β S γ × W)
  | .call choice, .main (.call (.inl op) next), w => (exec op choice w).map fun r => (.main (next r.1), r.2)
  | .enter, .main (.call (.inr req) next), w => some (.pool req [] (F.count req) [] F.start next, w)
  | .spawn key, .pool req spawned (remaining + 1) threads sum next, w =>
    if threads.length < F.limit req ∧ F.stopped sum = false ∧ fresh key w = true ∧ key ∉ spawned then
      some (.pool req (key :: spawned) remaining (threads ++ [(key, F.thread req key)]) sum next, w)
    else none
  | .halt, .pool req spawned (_ + 1) threads sum next, w =>
    if threads.length < F.limit req ∧ F.stopped sum = true then some (.pool req spawned 0 threads sum next, w) else none
  | .advance i choice, .pool req spawned remaining threads sum next, w =>
    match threads[i]? with
    | some (key, .call op rest) =>
      (exec op choice w).map fun r => (.pool req spawned remaining (threads.set i (key, rest r.1)) sum next, r.2)
    | _ => none
  | .finish i, .pool req spawned remaining threads sum next, w =>
    match threads[i]? with
    | some (_, .pure result) => some (.pool req spawned remaining (threads.eraseIdx i) (F.absorb sum result) next, w)
    | _ => none
  | .leave, .pool _ _ 0 [] sum next, w => some (.main (next sum), w)
  | _, _, _ => none

end Fan

def Activity.made : Activity Ans Req Key β S γ → Move Key C → Option (Op × C)
  | .main (.call (.inl op) _), .call choice => some (op, choice)
  | .pool _ _ _ threads _ _, .advance i choice =>
    match threads[i]? with
    | some (_, .call op _) => some (op, choice)
    | _ => none
  | _, _ => none

inductive Moved [DecidableEq Key] (F : Fan Ans Req Key β S) (exec : (op : Op) → C → W → Option (Ans op × W)) (fresh : Key → W → Bool) (w : W) :
    Activity Ans Req Key β S γ → Move Key C → Activity Ans Req Key β S γ → W → Prop
  | call {choice op next answer w'} (hexec : exec op choice w = some (answer, w')) :
      Moved F exec fresh w (.main (.call (.inl op) next)) (.call choice) (.main (next answer)) w'
  | enter {req next} : Moved F exec fresh w (.main (.call (.inr req) next)) .enter (.pool req [] (F.count req) [] F.start next) w
  | spawn {key req spawned remaining threads sum next} (hfresh : fresh key w = true) (hkey : key ∉ spawned) :
      Moved F exec fresh w (.pool req spawned (remaining + 1) threads sum next) (.spawn key)
        (.pool req (key :: spawned) remaining (threads ++ [(key, F.thread req key)]) sum next) w
  | halt {req spawned remaining threads sum next} :
      Moved F exec fresh w (.pool req spawned (remaining + 1) threads sum next) .halt (.pool req spawned 0 threads sum next) w
  | advance {i choice req spawned remaining threads sum next key op rest answer w'} (hi : threads[i]? = some (key, .call op rest))
      (hexec : exec op choice w = some (answer, w')) :
      Moved F exec fresh w (.pool req spawned remaining threads sum next) (.advance i choice)
        (.pool req spawned remaining (threads.set i (key, rest answer)) sum next) w'
  | finish {i req spawned remaining threads sum next key result} (hi : threads[i]? = some (key, .pure result)) :
      Moved F exec fresh w (.pool req spawned remaining threads sum next) (.finish i)
        (.pool req spawned remaining (threads.eraseIdx i) (F.absorb sum result) next) w
  | leave {req spawned sum next} : Moved F exec fresh w (.pool req spawned 0 [] sum next) .leave (.main (next sum)) w

theorem Fan.moved [DecidableEq Key] {F : Fan Ans Req Key β S} {exec : (op : Op) → C → W → Option (Ans op × W)} {fresh : Key → W → Bool}
    {m : Move Key C} {activity activity' : Activity Ans Req Key β S γ} {w w' : W} (h : F.move exec fresh m activity w = some (activity', w')) :
    Moved F exec fresh w activity m activity' w' := by
  unfold Fan.move at h
  split at h
  · obtain ⟨⟨answer, w₁⟩, hexec, heq⟩ := Option.map_eq_some_iff.mp h
    cases heq
    exact .call hexec
  · cases h
    exact .enter
  · split at h
    · rename_i hspawn
      cases h
      exact .spawn hspawn.2.2.1 hspawn.2.2.2
    · cases h
  · split at h
    · cases h
      exact .halt
    · cases h
  · split at h
    · rename_i hi
      obtain ⟨⟨answer, w₁⟩, hexec, heq⟩ := Option.map_eq_some_iff.mp h
      cases heq
      exact .advance hi hexec
    · cases h
  · split at h
    · rename_i hi
      cases h
      exact .finish hi
    · cases h
  · cases h
    exact .leave
  · cases h

structure Outline {Op : Type} (Ans : Op → Type) (Req Key W C β S : Type) where
  allowed : Op → C → W → Prop
  inv : W → Prop
  aim : W → Prop
  guard : Op → W → Prop
  mine : Key → Op → W → Prop
  solo : Op → W → Prop
  env : W → W → Prop
  drift : Key → W → W → Prop
  closed : Key → W → Prop
  enter : Req → W → Prop
  poolInv : Req → (start : W) → (spawned running : List Key) → S → W → Prop
  result : Req → Key → β → W → Prop

namespace Outline

variable (O : Outline Ans Req Key W C β S) (F : Fan Ans Req Key β S)
  (exec : (op : Op) → C → W → Option (Ans op × W)) (fresh : Key → W → Bool)

def Step (op : Op) (w : W) (answer : Ans op) (w' : W) : Prop :=
  ∃ choice, O.allowed op choice w ∧ exec op choice w = some (answer, w') ∧ O.inv w ∧ O.inv w'

def own (key : Key) : Logic Ans W where
  step := O.Step exec
  guard op w := O.guard op w ∧ O.mine key op w
  rely w w' := O.drift key w w' ∧ O.inv w'

def alone : Logic Ans W where
  step := O.Step exec
  guard op w := O.guard op w ∧ O.solo op w
  rely w w' := O.env w w' ∧ O.inv w'

/-- What a pool that started in `start` leaves behind when all its threads have ended. -/
def Settled (req : Req) (start : W) (sum : S) (w : W) : Prop :=
  O.inv w ∧ (∀ key, O.closed key w) ∧ ∃ spawned, spawned.length ≤ F.count req ∧ O.poolInv req start spawned [] sum w

def mainLogic : Logic (MainAns Ans Req S) W where
  step
    | .inl op, w, answer, w' => O.Step exec op w answer w'
    | .inr req, w, sum, w' => O.Settled F req w sum w'
  guard
    | .inl op, w => O.guard op w ∧ O.solo op w
    | .inr req, w => O.enter req w ∧ ∀ key, O.closed key w
  rely w w' := O.env w w' ∧ O.inv w'

variable {w : W} {key : Key} {req : Req} {post : γ → W → Prop} {threads : List (Key × Prog Ans β)} {spawned : List Key} {remaining : Nat} {next : S → Prog (MainAns Ans Req S) γ}

theorem safe_lift {α : Type} {p : Prog Ans α} {post : α → W → Prop} :
    Prog.Safe (O.mainLogic F exec) (p.lift : Prog (MainAns Ans Req S) α) post w ↔ Prog.Safe (O.alone exec) p post w := by
  induction p generalizing w with
  | pure a => exact Iff.rfl
  | call op next ih =>
    constructor
    · rintro ⟨hguard, hnext⟩
      exact ⟨hguard, fun answer w' hstep w'' hrely => ih answer |>.mp (hnext answer w' hstep w'' hrely)⟩
    · rintro ⟨hguard, hnext⟩
      exact ⟨hguard, fun answer w' hstep w'' hrely => ih answer |>.mpr (hnext answer w' hstep w'' hrely)⟩

structure Lawful : Prop where
  inv_step : ∀ {op choice w answer w'}, O.allowed op choice w → exec op choice w = some (answer, w') → O.guard op w →
    O.inv w → O.inv w'
  env_refl : ∀ w, O.env w w
  env_trans : ∀ {w w' w''}, O.env w w' → O.env w' w'' → O.env w w''
  drift_of_env : ∀ {key w w'}, O.env w w' → O.drift key w w'
  drift_trans : ∀ {key w w' w''}, O.drift key w w' → O.drift key w' w'' → O.drift key w w''
  drift_of_foreign : ∀ {key key' op w answer w'}, key ≠ key' → O.mine key' op w → O.guard op w →
    O.Step exec op w answer w' → O.drift key w w'
  closed_drift : ∀ {key w w'}, O.closed key w → O.drift key w w' → O.inv w' → O.closed key w'
  aim_env : ∀ {w w'}, O.aim w → O.env w w' → O.inv w' → O.aim w'
  aim_step : ∀ {op w answer w'}, O.aim w → O.solo op w → O.guard op w → O.Step exec op w answer w' → O.aim w'
  aim_pool : ∀ {req start spawned running sum w}, O.poolInv req start spawned running sum w → spawned.length ≤ F.count req →
    O.inv w → O.aim w
  pool_start : ∀ {req w}, O.enter req w → O.inv w → O.poolInv req w [] [] F.start w
  pool_spawn : ∀ {req start spawned running sum key w}, O.poolInv req start spawned running sum w → fresh key w = true →
    key ∉ spawned → O.inv w → O.closed key w → O.poolInv req start (key :: spawned) (running ++ [key]) sum w
  pool_env : ∀ {req start spawned running sum w w'}, O.poolInv req start spawned running sum w → O.env w w' → O.inv w' →
    O.poolInv req start spawned running sum w'
  pool_step : ∀ {req start spawned running sum key op w answer w'}, O.poolInv req start spawned running sum w → key ∈ spawned →
    key ∈ running → O.mine key op w → O.guard op w → O.Step exec op w answer w' → O.poolInv req start spawned running sum w'
  pool_finish : ∀ {req start spawned running running' sum key result w}, O.poolInv req start spawned running sum w → key ∈ spawned →
    key ∈ running → (∀ other, other ∈ running' ↔ other ∈ running ∧ other ≠ key) → O.inv w → O.result req key result w →
    O.poolInv req start spawned running' (F.absorb sum result) w
  thread : ∀ {req key w w'}, fresh key w = true → O.inv w → O.closed key w → O.drift key w w' → O.inv w' →
    Prog.Safe (O.own exec key) (F.thread req key) (fun result w => O.closed key w ∧ O.result req key result w) w'

def MainSafe (post : γ → W → Prop) (p : Prog (MainAns Ans Req S) γ) (w : W) : Prop :=
  ∀ w', O.env w w' → O.inv w' → Prog.Safe (O.mainLogic F exec) p post w'

def ThreadSafe (req : Req) (key : Key) (p : Prog Ans β) (w : W) : Prop :=
  ∀ w', O.drift key w w' → O.inv w' →
    Prog.Safe (O.own exec key) p (fun result w => O.closed key w ∧ O.result req key result w) w'

structure PoolSafe (post : γ → W → Prop) (req : Req) (start : W) (spawned : List Key) (remaining : Nat)
    (threads : List (Key × Prog Ans β)) (sum : S) (next : S → Prog (MainAns Ans Req S) γ) (w : W) : Prop where
  count : spawned.length + remaining ≤ F.count req
  keys : (threads.map Prod.fst).Nodup
  known : ∀ thread ∈ threads, thread.1 ∈ spawned
  pool : O.poolInv req start spawned (threads.map Prod.fst) sum w
  idle : ∀ key, key ∉ threads.map Prod.fst → O.closed key w
  safe : ∀ thread ∈ threads, O.ThreadSafe exec req thread.1 thread.2 w
  next : ∀ sum w', O.Settled F req start sum w' → O.MainSafe F exec post (next sum) w'

def ActivitySafe (post : γ → W → Prop) : Activity Ans Req Key β S γ → W → Prop
  | .main p, w => O.MainSafe F exec post p w
  | .pool req spawned remaining threads sum next, w => ∃ start, O.PoolSafe F exec post req start spawned remaining threads sum next w

variable {O F exec fresh}

theorem ThreadSafe.drift (hO : O.Lawful F exec fresh) {p : Prog Ans β} {w' : W}
    (h : O.ThreadSafe exec req key p w) (hdrift : O.drift key w w') : O.ThreadSafe exec req key p w' :=
  fun w'' hw'' hinv => h w'' (hO.drift_trans hdrift hw'') hinv

/-- A program verified for a key runs outside pools too, where for every other key it is a drift. -/
theorem alone_of_own (hO : O.Lawful F exec fresh) {α : Type} {p : Prog Ans α} {post : α → W → Prop}
    (hsolo : ∀ op w, O.guard op w → O.mine key op w → O.solo op w) (h : Prog.Safe (O.own exec key) p post w) :
    Prog.Safe (O.alone exec) p (fun a w' => post a w' ∧ ∀ other, other ≠ key → O.drift other w w') w := by
  refine h.frame (fun other _ => hO.drift_of_env (hO.env_refl w)) (fun op w' _ hguard => ⟨hguard.1, hsolo op w' hguard.1 hguard.2⟩) ?_ ?_
  · intro op w₁ answer w₂ hframe hguard hstep
    exact ⟨hstep, fun other hother =>
      hO.drift_trans (hframe other hother) (hO.drift_of_foreign hother hguard.2 hguard.1 hstep)⟩
  · intro w₁ w₂ hframe hrely
    exact ⟨⟨hO.drift_of_env hrely.1, hrely.2⟩, fun other hother => hO.drift_trans (hframe other hother) (hO.drift_of_env hrely.1)⟩

theorem ActivitySafe.env (hO : O.Lawful F exec fresh) {activity : Activity Ans Req Key β S γ}
    {w' : W} (h : O.ActivitySafe F exec post activity w) (henv : O.env w w') (hinv : O.inv w') :
    O.ActivitySafe F exec post activity w' := by
  cases activity with
  | main p => exact fun w'' hw'' => h w'' (hO.env_trans henv hw'')
  | pool req spawned remaining threads sum next =>
    obtain ⟨start, h⟩ := h
    exact
      ⟨start,
      { count := h.count
        keys := h.keys
        known := h.known
        pool := hO.pool_env h.pool henv hinv
        idle := fun key hkey => hO.closed_drift (h.idle key hkey) (hO.drift_of_env henv) hinv
        safe := fun thread hthread => (h.safe thread hthread).drift hO (hO.drift_of_env henv)
        next := h.next }⟩

theorem mem_map_fst_set {i : Nat} {p q : Prog Ans β}
    (hi : threads[i]? = some (key, p)) : (threads.set i (key, q)).map Prod.fst = threads.map Prod.fst := by
  apply List.ext_getElem?
  intro j
  rw [List.getElem?_map, List.getElem?_map, List.getElem?_set]
  obtain ⟨hlt, hget⟩ := List.getElem?_eq_some_iff.mp hi
  by_cases hij : i = j
  · subst hij
    simp [hlt, hget]
  · simp [hij]

/-- A thread's call: its own judgment moves on, and for everybody else it is a drift. -/
theorem PoolSafe.advance (hO : O.Lawful F exec fresh) {start : W}
    {sum : S} {w' : W} {i : Nat}
    {op : Op} {rest : Ans op → Prog Ans β} {answer : Ans op}
    (h : O.PoolSafe F exec post req start spawned remaining threads sum next w) (hinv : O.inv w)
    (hi : threads[i]? = some (key, .call op rest)) (hstep : O.guard op w → O.Step exec op w answer w') :
    O.guard op w ∧ O.PoolSafe F exec post req start spawned remaining (threads.set i (key, rest answer)) sum next w' := by
  have hmem : (key, Prog.call op rest) ∈ threads := List.mem_of_getElem? hi
  obtain ⟨⟨hguard, hmine⟩, hrest⟩ := h.safe _ hmem w (hO.drift_of_env (hO.env_refl w)) hinv
  have hw' := hstep hguard
  have hkeys := mem_map_fst_set (q := rest answer) hi
  have hforeign : ∀ other, other ≠ key → O.drift other w w' := fun other hother =>
    hO.drift_of_foreign hother hmine hguard hw'
  have hinv' : O.inv w' := hw'.choose_spec.2.2.2
  refine ⟨hguard, h.count, hkeys ▸ h.keys, ?_, ?_, ?_, ?_, h.next⟩
  · intro thread hthread
    rcases List.mem_or_eq_of_mem_set hthread with hold | rfl
    · exact h.known thread hold
    · exact h.known (key, .call op rest) hmem
  · rw [hkeys]
    exact hO.pool_step h.pool (h.known _ hmem) (List.mem_map_of_mem hmem) hmine hguard hw'
  · intro other hother
    rw [hkeys] at hother
    have hne : other ≠ key := fun heq => hother (heq ▸ List.mem_map_of_mem hmem)
    exact hO.closed_drift (h.idle other hother) (hforeign other hne) hinv'
  · intro thread hthread
    obtain ⟨j, hj, hthread⟩ := List.getElem_of_mem hthread
    by_cases hij : i = j
    · subst hij
      rw [List.getElem_set_self] at hthread
      subst hthread
      exact fun w'' hdrift hinv'' => hrest answer w' hw' w'' ⟨hdrift, hinv''⟩
    · rw [List.getElem_set_ne hij] at hthread
      have hjold : j < threads.length := by simpa using hj
      have hmemj : thread ∈ threads := hthread ▸ List.getElem_mem hjold
      -- Two positions of the list hold two keys.
      have hne : thread.1 ≠ key := by
        intro heq
        have hj' : threads[j]? = some thread := by rw [List.getElem?_eq_getElem hjold, hthread]
        have hsame : (threads.map Prod.fst)[j]? = (threads.map Prod.fst)[i]? := by simp [hi, hj', heq]
        exact hij ((List.getElem?_inj (by simpa using hjold) h.keys).mp hsame).symm
      exact (h.safe thread hmemj).drift hO (hforeign thread.1 hne)

theorem PoolSafe.spawn (hO : O.Lawful F exec fresh) {start : W}
    {sum : S}
    (h : O.PoolSafe F exec post req start spawned (remaining + 1) threads sum next w) (hinv : O.inv w)
    (hfresh : fresh key w = true) (hkey : key ∉ spawned) :
    O.PoolSafe F exec post req start (key :: spawned) remaining (threads ++ [(key, F.thread req key)]) sum next w := by
  have hnew : key ∉ threads.map Prod.fst := by
    intro hmem
    obtain ⟨thread, hthread, rfl⟩ := List.mem_map.mp hmem
    exact hkey (h.known thread hthread)
  have hclosed := h.idle key hnew
  have hcount := h.count
  have hpool := hO.pool_spawn h.pool hfresh hkey hinv hclosed
  refine ⟨by simp only [List.length_cons]; omega, ?_, ?_, by simpa using hpool, ?_, ?_, h.next⟩
  · rw [List.map_append, List.nodup_append]
    refine ⟨h.keys, by simp, ?_⟩
    intro other hother other' hother' heq
    simp only [List.map_cons, List.map_nil, List.mem_singleton] at hother'
    exact hnew (hother' ▸ heq ▸ hother)
  · intro thread hthread
    rcases List.mem_append.mp hthread with hthread | hthread
    · exact List.mem_cons_of_mem key (h.known thread hthread)
    · exact List.mem_singleton.mp hthread ▸ List.mem_cons_self
  · intro other hother
    rw [List.map_append, List.mem_append, not_or] at hother
    exact h.idle other hother.1
  · intro thread hthread
    rcases List.mem_append.mp hthread with hthread | hthread
    · exact h.safe thread hthread
    · rw [List.mem_singleton.mp hthread]
      exact fun w' hdrift hinv' => hO.thread hfresh hinv hclosed hdrift hinv'

theorem mem_map_fst_eraseIdx (hkeys : (threads.map Prod.fst).Nodup) {i : Nat}
    {p : Prog Ans β} (hi : threads[i]? = some (key, p)) (other : Key) :
    other ∈ (threads.eraseIdx i).map Prod.fst ↔ other ∈ threads.map Prod.fst ∧ other ≠ key := by
  have hi' : (threads.map Prod.fst)[i]? = some key := by simp [hi]
  obtain ⟨hlt, -⟩ := List.getElem?_eq_some_iff.mp hi'
  constructor
  · intro hother
    obtain ⟨thread, hthread, rfl⟩ := List.mem_map.mp hother
    obtain ⟨j, hij, hj⟩ := List.mem_eraseIdx_iff_getElem?.mp hthread
    have hj' : (threads.map Prod.fst)[j]? = some thread.1 := by simp [hj]
    refine ⟨List.mem_of_getElem? hj', fun heq => hij ?_⟩
    exact ((List.getElem?_inj hlt hkeys).mp (by rw [hi', hj', heq])).symm
  · rintro ⟨hother, hne⟩
    obtain ⟨thread, hthread, rfl⟩ := List.mem_map.mp hother
    obtain ⟨j, hj⟩ := List.mem_iff_getElem?.mp hthread
    refine List.mem_map_of_mem (List.mem_eraseIdx_iff_getElem?.mpr ⟨j, ?_, hj⟩)
    rintro rfl
    rw [hi, Option.some.injEq] at hj
    exact hne (congrArg Prod.fst hj).symm

theorem PoolSafe.finish (hO : O.Lawful F exec fresh) {start : W}
    {sum : S} {i : Nat}
    {result : β} (h : O.PoolSafe F exec post req start spawned remaining threads sum next w) (hinv : O.inv w)
    (hi : threads[i]? = some (key, .pure result)) :
    O.PoolSafe F exec post req start spawned remaining (threads.eraseIdx i) (F.absorb sum result) next w := by
  have hmem : (key, Prog.pure result) ∈ threads := List.mem_of_getElem? hi
  obtain ⟨hclosed, hresult⟩ := h.safe _ hmem w (hO.drift_of_env (hO.env_refl w)) hinv
  have hsub : (threads.eraseIdx i).Sublist threads := List.eraseIdx_sublist threads i
  have hleft := mem_map_fst_eraseIdx h.keys hi
  refine ⟨h.count, h.keys.sublist (hsub.map _), fun thread hthread => h.known thread (hsub.subset hthread),
    hO.pool_finish h.pool (h.known _ hmem) (List.mem_map_of_mem hmem) hleft hinv hresult, ?_,
    fun thread hthread => h.safe thread (hsub.subset hthread), h.next⟩
  intro other hother
  by_cases hkey : other = key
  · exact hkey ▸ hclosed
  · exact h.idle other fun hold => hother ((hleft other).mpr ⟨hold, hkey⟩)

theorem PoolSafe.leave {start : W} {sum : S}
    (h : O.PoolSafe F exec post req start spawned 0 [] sum next w)
    (hinv : O.inv w) : O.MainSafe F exec post (next sum) w :=
  h.next sum w ⟨hinv, fun key => h.idle key (by simp), spawned, h.count, h.pool⟩

theorem MainSafe.enter (hO : O.Lawful F exec fresh)
    (h : O.MainSafe F exec post (.call (.inr req) next) w) (hinv : O.inv w) :
    O.PoolSafe F exec post req w [] (F.count req) [] F.start next w := by
  obtain ⟨⟨henter, hclosed⟩, hnext⟩ := h w (hO.env_refl w) hinv
  refine ⟨by simp, by simp, by simp, hO.pool_start henter hinv, fun key _ => hclosed key, by simp, ?_⟩
  intro sum w' hsettled w'' henv hinv''
  exact hnext sum w' hsettled w'' ⟨henv, hinv''⟩

theorem PoolSafe.made (hO : O.Lawful F exec fresh) {start : W}
    {sum : S} {i : Nat} {op : Op}
    {rest : Ans op → Prog Ans β} (h : O.PoolSafe F exec post req start spawned remaining threads sum next w) (hinv : O.inv w)
    (hi : threads[i]? = some (key, .call op rest)) : key ∈ spawned ∧ O.guard op w ∧ O.mine key op w := by
  have hmem := List.mem_of_getElem? hi
  exact ⟨h.known _ hmem, (h.safe _ hmem w (hO.drift_of_env (hO.env_refl w)) hinv).1⟩

theorem maker_of_made (hO : O.Lawful F exec fresh) {activity : Activity Ans Req Key β S γ}
    {m : Move Key C} {op : Op} {choice : C} (h : O.ActivitySafe F exec post activity w) (hinv : O.inv w)
    (hmade : activity.made m = some (op, choice)) : O.guard op w ∧ (O.solo op w ∨
      ∃ req start spawned remaining threads sum next key, activity = .pool req spawned remaining threads sum next ∧
        spawned.length ≤ F.count req ∧ O.poolInv req start spawned (threads.map Prod.fst) sum w ∧ key ∈ spawned ∧ O.mine key op w) := by
  unfold Activity.made at hmade
  split at hmade
  · simp only [Option.some.injEq, Prod.mk.injEq] at hmade
    obtain ⟨rfl, -⟩ := hmade
    obtain ⟨hguard, hsolo⟩ := (h w (hO.env_refl w) hinv).1
    exact ⟨hguard, Or.inl hsolo⟩
  · obtain ⟨start, h⟩ := h
    split at hmade
    · rename_i hi
      simp only [Option.some.injEq, Prod.mk.injEq] at hmade
      obtain ⟨rfl, -⟩ := hmade
      obtain ⟨hkey, hguard, hmine⟩ := h.made hO hinv hi
      exact ⟨hguard, Or.inr ⟨_, start, _, _, _, _, _, _, rfl, Nat.le_of_add_right_le h.count, h.pool, hkey, hmine⟩⟩
    · simp at hmade
  · simp at hmade

variable [DecidableEq Key]

/-- The step lemma of the machine: a move whose choice is allowed keeps the invariant, the aim and every judgment. -/
theorem move_preserves (hO : O.Lawful F exec fresh) {activity activity' : Activity Ans Req Key β S γ}
    {w' : W} {m : Move Key C} (h : O.ActivitySafe F exec post activity w) (hinv : O.inv w) (haim : O.aim w)
    (hallowed : ∀ op choice, activity.made m = some (op, choice) → O.allowed op choice w)
    (hmove : F.move exec fresh m activity w = some (activity', w')) :
    O.inv w' ∧ O.aim w' ∧ O.ActivitySafe F exec post activity' w' := by
  cases Fan.moved hmove with
  | @call choice op next answer _ hexec =>
    obtain ⟨⟨hguard, hsolo⟩, hnext⟩ := h w (hO.env_refl w) hinv
    have hop := hallowed op choice rfl
    have hinv' := hO.inv_step hop hexec hguard hinv
    have hstep : O.Step exec op w answer w' := ⟨choice, hop, hexec, hinv, hinv'⟩
    exact ⟨hinv', hO.aim_step haim hsolo hguard hstep, fun w'' henv hinv'' => hnext answer w' hstep w'' ⟨henv, hinv''⟩⟩
  | enter => exact ⟨hinv, haim, w, h.enter hO hinv⟩
  | spawn hfresh hkey =>
    obtain ⟨start, h⟩ := h
    exact ⟨hinv, haim, start, PoolSafe.spawn hO h hinv hfresh hkey⟩
  | halt =>
    obtain ⟨start, h⟩ := h
    have hcount := h.count
    exact ⟨hinv, haim, start, ⟨by omega, h.keys, h.known, h.pool, h.idle, h.safe, h.next⟩⟩
  | @advance i choice _ _ _ _ _ _ _ op _ answer _ hi hexec =>
    obtain ⟨start, h⟩ := h
    have hop : O.allowed op choice w := hallowed op choice (by simp [Activity.made, hi])
    have hstep : O.guard op w → O.Step exec op w answer w' := fun hguard =>
      ⟨choice, hop, hexec, hinv, hO.inv_step hop hexec hguard hinv⟩
    obtain ⟨hguard, hpool⟩ := PoolSafe.advance hO h hinv hi hstep
    have hinv' := hO.inv_step hop hexec hguard hinv
    have hcount := hpool.count
    exact ⟨hinv', hO.aim_pool hpool.pool (by omega) hinv', start, hpool⟩
  | finish hi =>
    obtain ⟨start, h⟩ := h
    exact ⟨hinv, haim, start, PoolSafe.finish hO h hinv hi⟩
  | leave =>
    obtain ⟨start, h⟩ := h
    exact ⟨hinv, haim, PoolSafe.leave h hinv⟩

end Outline

theorem Fan.move_world [DecidableEq Key] {F : Fan Ans Req Key β S} {exec : (op : Op) → C → W → Option (Ans op × W)}
    {fresh : Key → W → Bool} {m : Move Key C} {activity activity' : Activity Ans Req Key β S γ} {w w' : W}
    (h : F.move exec fresh m activity w = some (activity', w')) :
    w' = w ∨ ∃ op choice answer, activity.made m = some (op, choice) ∧ exec op choice w = some (answer, w') := by
  cases Fan.moved h with
  | call hexec => exact Or.inr ⟨_, _, _, rfl, hexec⟩
  | advance hi hexec => exact Or.inr ⟨_, _, _, by simp [Activity.made, hi], hexec⟩
  | _ => exact Or.inl rfl

end Interaction
