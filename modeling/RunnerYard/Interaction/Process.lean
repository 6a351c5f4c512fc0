import RunnerYard.Interaction.Program
import RunnerYard.Interaction.Runs

/-!
# A process that may stop anywhere

One process at a time runs over a world. It makes its calls one by one, others change the world between them, and it may stop after any of them; then it can be started again. `ProcessOutline` is what is to be proved about one call, one change and one start, and `Reach.safe` is what follows for every run: the invariant holds, and whatever call the process is about to make meets its guard.
-/

namespace Interaction

variable {Op W C E K ρ : Type} {Ans : Op → Type}

structure Process {Op : Type} (Ans : Op → Type) (W C E K ρ : Type) where
  exec : (op : Op) → C → W → Option (Ans op × W)
  change : E → W → W
  start : K → W → Prog Ans ρ × W

namespace Process

inductive Label (C E K : Type) where
  | env (change : E)
  | start (input : K)
  | move (choice : C)
  | stop

structure Config {Op : Type} (Ans : Op → Type) (W ρ : Type) where
  world : W
  running : Option (Prog Ans ρ) := none

def Config.pending (c : Config Ans W ρ) : Option Op :=
  match c.running with
  | some (.call op _) => some op
  | _ => none

variable (M : Process Ans W C E K ρ)

def step : Label C E K → Config Ans W ρ → Option (Config Ans W ρ)
  | .env change, c => some { c with world := M.change change c.world }
  | .start input, c =>
    match c.running with
    | none => some { world := (M.start input c.world).2, running := some (M.start input c.world).1 }
    | some _ => none
  | .move choice, c =>
    match c.running with
    | some (.call op next) => (M.exec op choice c.world).map fun r => { world := r.2, running := some (next r.1) }
    | _ => none
  | .stop, c => some { c with running := none }

variable {M}

variable {c : Config Ans W ρ}

theorem step_move {choice : C} {c' : Config Ans W ρ} (h : M.step (.move choice) c = some c') :
    ∃ op next answer w', c.running = some (.call op next) ∧ M.exec op choice c.world = some (answer, w') ∧
      c' = { world := w', running := some (next answer) } := by
  simp only [step] at h
  split at h
  · rename_i op next hrunning
    obtain ⟨r, hexec, rfl⟩ := Option.map_eq_some_iff.mp h
    exact ⟨op, next, r.1, r.2, hrunning, hexec, rfl⟩
  · cases h

theorem step_start {input : K} {c' : Config Ans W ρ} (h : M.step (.start input) c = some c') :
    c' = { world := (M.start input c.world).2, running := some (M.start input c.world).1 } := by
  simp only [step] at h
  split at h
  · exact (Option.some.inj h).symm
  · cases h

/-- A proof outline: an invariant of the world, a logic for the program, and which labels are admitted. -/
structure Outline {Op : Type} {Ans : Op → Type} {W C E K ρ : Type} (M : Process Ans W C E K ρ) (ok : Config Ans W ρ → Label C E K → Prop)
    (L : Logic Ans W) (inv : W → Prop) : Prop where
  refl : ∀ w, inv w → L.rely w w
  trans : ∀ w₁ w₂ w₃, inv w₁ → L.rely w₁ w₂ → L.rely w₂ w₃ → L.rely w₁ w₃
  change : ∀ c change, inv c.world → ok c (.env change) → inv (M.change change c.world) ∧ L.rely c.world (M.change change c.world)
  move : ∀ c choice op next answer w', inv c.world → c.running = some (.call op next) → L.guard op c.world → ok c (.move choice) →
    M.exec op choice c.world = some (answer, w') → L.step op c.world answer w' ∧ inv w'
  start : ∀ c input, inv c.world → ok c (.start input) → inv (M.start input c.world).2 ∧
    ∀ w, L.rely (M.start input c.world).2 w → Prog.Safe L (M.start input c.world).1 (fun _ _ => True) w

/-- The invariant holds, and the process is safe wherever others may take the world. -/
structure Config.Sound (L : Logic Ans W) (inv : W → Prop) (c : Config Ans W ρ) : Prop where
  inv : inv c.world
  safe : ∀ p, c.running = some p → ∀ w, L.rely c.world w → Prog.Safe L p (fun _ _ => True) w

variable {ok : Config Ans W ρ → Label C E K → Prop} {L : Logic Ans W} {inv : W → Prop}

theorem Config.Sound.step {c' : Config Ans W ρ} {label : Label C E K} (O : Outline M ok L inv) (h : c.Sound L inv) (hok : ok c label)
    (hstep : M.step label c = some c') : c'.Sound L inv := by
  cases label with
  | env change =>
    obtain ⟨hinv, hrely⟩ := O.change c change h.inv hok
    obtain rfl := Option.some.inj hstep
    exact ⟨hinv, fun p hp w hw => h.safe p hp w (O.trans _ _ _ h.inv hrely hw)⟩
  | start input =>
    obtain rfl := step_start hstep
    obtain ⟨hinv, hsafe⟩ := O.start c input h.inv hok
    refine ⟨hinv, fun p hp w hw => ?_⟩
    obtain rfl := Option.some.inj hp
    exact hsafe w hw
  | move choice =>
    obtain ⟨op, next, answer, w', hrunning, hexec, rfl⟩ := step_move hstep
    obtain ⟨hguard, hnext⟩ := h.safe _ hrunning c.world (O.refl _ h.inv)
    obtain ⟨hmade, hinv⟩ := O.move c choice op next answer w' h.inv hrunning hguard hok hexec
    refine ⟨hinv, fun p hp w hw => ?_⟩
    obtain rfl := Option.some.inj hp
    exact hnext answer w' hmade w hw
  | stop =>
    obtain rfl := Option.some.inj hstep
    exact ⟨h.inv, fun p hp => by cases hp⟩

theorem Outline.sound (O : Outline M ok L inv) {w₀ : W} (hinv : inv w₀) (h : Reach M.step ok { world := w₀ } c) :
    c.Sound L inv :=
  h.invariant ⟨hinv, fun p hp => by cases hp⟩ fun hs hok hstep => hs.step O hok hstep

theorem Config.Sound.guard (O : Outline M ok L inv) (h : c.Sound L inv) {op : Op} {next : Ans op → Prog Ans ρ}
    (hrunning : c.running = some (.call op next)) : L.guard op c.world :=
  (h.safe _ hrunning c.world (O.refl _ h.inv)).1

end Process

end Interaction
