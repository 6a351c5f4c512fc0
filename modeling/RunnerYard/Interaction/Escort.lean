import RunnerYard.Interaction.Fan
import Mathlib.Data.List.InsertIdx

/-!
# Pools whose threads are followed one by one

An `Outline` tells from the world whose a call is. Where the world does not say, and all that counts is how often the threads of a pool do something, an `Escort` follows each thread by a ghost state of its own. A thread is verified once, against a logic on ghost states; the pool's invariant relates the world to the ghost states of the running threads and to the number of threads that may still start.
-/

namespace Interaction

variable {Op Req Key W C β S γ G : Type} {Ans : Op → Type}

structure Escort {Op : Type} (Ans : Op → Type) (Req Key W C G : Type) where
  allowed : Op → C → W → Prop
  inv : W → Prop
  env : W → W → Prop
  solo : Op → W → Prop
  enter : Req → W → Prop
  role : Req → Key → Logic Ans G
  first : G
  pool : Req → (start : W) → (remaining : Nat) → (ghosts : List G) → W → Prop

namespace Escort

variable (E : Escort Ans Req Key W C G) (F : Fan Ans Req Key β S) (exec : (op : Op) → C → W → Option (Ans op × W))

def Step (op : Op) (w : W) (answer : Ans op) (w' : W) : Prop :=
  ∃ choice, E.allowed op choice w ∧ exec op choice w = some (answer, w') ∧ E.inv w ∧ E.inv w'

/-- The logic of the main program. A pool leaves behind what its invariant says when no thread is left. -/
def mainLogic : Logic (MainAns Ans Req S) W where
  step
    | .inl op, w, answer, w' => E.Step exec op w answer w'
    | .inr req, w, _, w' => E.inv w' ∧ E.pool req w 0 [] w'
  guard
    | .inl op, w => E.solo op w
    | .inr req, w => E.enter req w
  rely w w' := E.env w w' ∧ E.inv w'

structure Lawful : Prop where
  env_refl : ∀ w, E.env w w
  env_trans : ∀ {w w' w''}, E.env w w' → E.env w' w'' → E.env w w''
  inv_step : ∀ {op choice w answer w'}, E.allowed op choice w → exec op choice w = some (answer, w') → E.solo op w → E.inv w → E.inv w'
  inv_pool : ∀ {req start remaining ghosts w}, E.pool req start remaining ghosts w → E.inv w
  role_refl : ∀ req key g, (E.role req key).rely g g
  pool_start : ∀ {req w}, E.enter req w → E.inv w → E.pool req w (F.count req) [] w
  pool_spawn : ∀ {req start remaining ghosts w}, E.pool req start (remaining + 1) ghosts w →
    E.pool req start remaining (ghosts ++ [E.first]) w
  pool_halt : ∀ {req start remaining ghosts w}, E.pool req start (remaining + 1) ghosts w → E.pool req start 0 ghosts w
  pool_finish : ∀ {req start remaining ghosts w} (i : Nat), E.pool req start remaining ghosts w →
    E.pool req start remaining (ghosts.eraseIdx i) w
  pool_env : ∀ {req start remaining ghosts w w'}, E.pool req start remaining ghosts w → E.env w w' → E.inv w' →
    E.pool req start remaining ghosts w'
  pool_step : ∀ {req start remaining ghosts w w' i g key op choice answer}, E.pool req start remaining ghosts w → ghosts[i]? = some g →
    (E.role req key).guard op g → E.allowed op choice w → exec op choice w = some (answer, w') →
    ∃ g', (E.role req key).step op g answer g' ∧ E.pool req start remaining (ghosts.set i g') w'
  thread : ∀ req key, Prog.Safe (E.role req key) (F.thread req key) (fun _ _ => True) E.first

def MainSafe (post : γ → W → Prop) (p : Prog (MainAns Ans Req S) γ) (w : W) : Prop :=
  ∀ w', E.env w w' → E.inv w' → Prog.Safe (E.mainLogic (S := S) exec) p post w'

def Followed (req : Req) (member : (Key × Prog Ans β) × G) : Prop :=
  Prog.Safe (E.role req member.1.1) member.1.2 (fun _ _ => True) member.2

def ActivitySafe (post : γ → W → Prop) : Activity Ans Req Key β S γ → W → Prop
  | .main p, w => E.MainSafe exec post p w
  | .pool req _ remaining threads _ next, w => ∃ start, ∃ members : List ((Key × Prog Ans β) × G), members.map Prod.fst = threads ∧
      E.pool req start remaining (members.map Prod.snd) w ∧ (∀ member ∈ members, E.Followed req member) ∧
      ∀ sum w', E.inv w' → E.pool req start 0 [] w' → E.MainSafe exec post (next sum) w'

variable {E F exec}

theorem safe_lift {α : Type} {p : Prog Ans α} {post : α → W → Prop} {P : Op → Prop} (h : Prog.All P p) {w : W} (keep : W → Prop) (hkeep : keep w)
    (hsolo : ∀ op w, P op → keep w → E.solo op w)
    (hstep : ∀ op w answer w' w'', P op → keep w → E.Step exec op w answer w' → E.env w' w'' → E.inv w'' → keep w'')
    (hpost : ∀ a w, keep w → post a w) : Prog.Safe (E.mainLogic (S := S) exec) (p.lift : Prog (MainAns Ans Req S) α) post w := by
  induction p generalizing w with
  | pure a => exact hpost a w hkeep
  | call op next ih =>
    exact ⟨hsolo op w h.1 hkeep, fun answer w' hw' w'' hw'' =>
      ih answer (h.2 answer) (hstep op w answer w' w'' h.1 hkeep hw' hw''.1 hw''.2)⟩

theorem ActivitySafe.env (hE : E.Lawful F exec) {post : γ → W → Prop} {activity : Activity Ans Req Key β S γ} {w w' : W}
    (h : E.ActivitySafe exec post activity w) (henv : E.env w w') (hinv : E.inv w') : E.ActivitySafe exec post activity w' := by
  cases activity with
  | main p => exact fun w'' hw'' => h w'' (hE.env_trans henv hw'')
  | pool req spawned remaining threads sum next =>
    obtain ⟨start, members, hthreads, hpool, hfollowed, hnext⟩ := h
    exact ⟨start, members, hthreads, hE.pool_env hpool henv hinv, hfollowed, hnext⟩

theorem exists_ghost {req : Req} {members : List ((Key × Prog Ans β) × G)} (hfollowed : ∀ member ∈ members, E.Followed req member) {i : Nat} {key : Key}
    {p : Prog Ans β} (hi : (members.map Prod.fst)[i]? = some (key, p)) :
    ∃ g, (members.map Prod.snd)[i]? = some g ∧ E.Followed req ((key, p), g) := by
  rw [List.getElem?_map, Option.map_eq_some_iff] at hi
  obtain ⟨⟨thread, g⟩, hmember, rfl⟩ := hi
  refine ⟨g, ?_, hfollowed _ (List.mem_of_getElem? hmember)⟩
  rw [List.getElem?_map, hmember]
  rfl

theorem maker_of_made (hE : E.Lawful F exec) {post : γ → W → Prop} {activity : Activity Ans Req Key β S γ} {w : W} {m : Move Key C} {op : Op}
    {choice : C} (h : E.ActivitySafe exec post activity w) (hinv : E.inv w) (hmade : activity.made m = some (op, choice)) :
    (E.solo op w ∧ ∃ p, activity = .main p) ∨ ∃ req spawned remaining threads sum next start ghosts key g, ∃ i : Nat,
      activity = .pool req spawned remaining threads sum next ∧ E.pool req start remaining ghosts w ∧ ghosts[i]? = some g ∧
      (E.role req key).guard op g := by
  unfold Activity.made at hmade
  split at hmade
  · simp only [Option.some.injEq, Prod.mk.injEq] at hmade
    obtain ⟨rfl, -⟩ := hmade
    exact Or.inl ⟨(h w (hE.env_refl w) hinv).1, _, rfl⟩
  · obtain ⟨start, members, rfl, hpool, hfollowed, -⟩ := h
    split at hmade
    · rename_i hi
      simp only [Option.some.injEq, Prod.mk.injEq] at hmade
      obtain ⟨rfl, -⟩ := hmade
      obtain ⟨g, hg, hsafe⟩ := exists_ghost hfollowed hi
      exact Or.inr ⟨_, _, _, _, _, _, start, _, _, g, _, rfl, hpool, hg, hsafe.1⟩
    · simp at hmade
  · simp at hmade

variable [DecidableEq Key] {fresh : Key → W → Bool}

/-- The step lemma of the machine: a move whose choice is allowed keeps the invariant and every judgment. -/
theorem move_preserves (hE : E.Lawful F exec) {post : γ → W → Prop} {activity activity' : Activity Ans Req Key β S γ} {w w' : W}
    {m : Move Key C} (h : E.ActivitySafe exec post activity w) (hinv : E.inv w)
    (hallowed : ∀ op choice, activity.made m = some (op, choice) → E.allowed op choice w)
    (hmove : F.move exec fresh m activity w = some (activity', w')) : E.inv w' ∧ E.ActivitySafe exec post activity' w' := by
  cases Fan.moved hmove with
  | @call choice op _ answer _ hexec =>
    obtain ⟨hsolo, hnext⟩ := h w (hE.env_refl w) hinv
    have hop := hallowed op choice rfl
    have hinv' := hE.inv_step hop hexec hsolo hinv
    exact ⟨hinv', fun w'' henv hinv'' => hnext answer w' ⟨choice, hop, hexec, hinv, hinv'⟩ w'' ⟨henv, hinv''⟩⟩
  | enter =>
    obtain ⟨henter, hnext⟩ := h w (hE.env_refl w) hinv
    refine ⟨hinv, w, [], rfl, hE.pool_start henter hinv, by simp, ?_⟩
    exact fun sum w' hinv' hpool w'' henv hinv'' => hnext sum w' ⟨hinv', hpool⟩ w'' ⟨henv, hinv''⟩
  | @spawn key req =>
    obtain ⟨start, members, rfl, hpool, hfollowed, hnext⟩ := h
    refine ⟨hinv, start, members ++ [((key, F.thread req key), E.first)], by simp, ?_, ?_, hnext⟩
    · simpa using hE.pool_spawn hpool
    · intro member hmember
      rcases List.mem_append.mp hmember with hold | hnew
      · exact hfollowed member hold
      · rw [List.mem_singleton.mp hnew]
        exact hE.thread req key
  | halt =>
    obtain ⟨start, members, rfl, hpool, hfollowed, hnext⟩ := h
    exact ⟨hinv, start, members, rfl, hE.pool_halt hpool, hfollowed, hnext⟩
  | @advance i choice req _ _ _ _ _ key op rest answer _ hi hexec =>
    obtain ⟨start, members, rfl, hpool, hfollowed, hnext⟩ := h
    have hop : E.allowed op choice w := hallowed op choice (by simp [Activity.made, hi])
    obtain ⟨g, hg, hguard, hrest⟩ := exists_ghost hfollowed hi
    obtain ⟨g', hstep, hpool'⟩ := hE.pool_step hpool hg hguard hop hexec
    refine ⟨hE.inv_pool hpool', start, members.set i ((key, rest answer), g'), by simp, by simpa using hpool', ?_, hnext⟩
    intro member hmember
    rcases List.mem_or_eq_of_mem_set hmember with hold | rfl
    · exact hfollowed member hold
    · exact hrest answer g' hstep g' (hE.role_refl req key g')
  | @finish i =>
    obtain ⟨start, members, rfl, hpool, hfollowed, hnext⟩ := h
    refine ⟨hinv, start, members.eraseIdx i, by simp [List.eraseIdx_map], ?_, ?_, hnext⟩
    · simpa [List.eraseIdx_map] using hE.pool_finish i hpool
    · exact fun member hmember => hfollowed member (List.mem_of_mem_eraseIdx hmember)
  | leave =>
    obtain ⟨start, members, hthreads, hpool, -, hnext⟩ := h
    obtain rfl := List.map_eq_nil_iff.mp hthreads
    exact ⟨hinv, hnext _ _ hinv hpool⟩

end Escort

end Interaction
