import RunnerYard.Interaction.Traces

/-!
# Programs with nobody else at work

A program that only reads sees one world from its start to its end: `Try.Gives` is what it returns when every call is answered as that world has it. A program that writes is run by `Prog.execute`, which hands the world from call to call.
-/

namespace Interaction

variable {Op : Type} {Ans : Op → Type} {W α β σ ε : Type}

namespace Prog

theorem Yields.unique {holds : Event Ans → Prop} (hone : ∀ op a b, holds ⟨op, a⟩ → holds ⟨op, b⟩ → a = b) {p : Prog Ans α} {trace trace' : List (Event Ans)}
    {a b : α} (h : Yields p trace a) (h' : Yields p trace' b) (hall : ∀ event ∈ trace, holds event) (hall' : ∀ event ∈ trace', holds event) : a = b := by
  induction h generalizing trace' with
  | pure a =>
    cases h'
    rfl
  | call hrest ih =>
    cases h' with
    | call hrest' =>
      obtain ⟨hfirst, hlater⟩ := List.forall_mem_cons.mp hall
      obtain ⟨hfirst', hlater'⟩ := List.forall_mem_cons.mp hall'
      obtain rfl := hone _ _ _ hfirst hfirst'
      exact ih hrest' hlater hlater'

/-- A program that keeps to some calls, each of which teaches a fact that later steps do not undo, knows at its end what all its calls have taught. -/
theorem safe_yields {L : Logic Ans W} {P : Op → Prop} {inv : W → Prop} (fact : Event Ans → W → Prop) (hguard : ∀ op w, P op → inv w → L.guard op w)
    (hstep : ∀ op w answer w' w'', P op → inv w → L.step op w answer w' → L.rely w' w'' →
      inv w'' ∧ fact ⟨op, answer⟩ w'' ∧ ∀ event, fact event w → fact event w'') {p : Prog Ans α} (hp : All P p) {w : W} (hinv : inv w) :
    Safe L p (fun a w' => inv w' ∧ (∀ event, fact event w → fact event w') ∧ ∃ trace, Yields p trace a ∧ ∀ event ∈ trace, fact event w') w := by
  induction p generalizing w with
  | pure a => exact ⟨hinv, fun _ => id, [], .pure a, List.forall_mem_nil _⟩
  | call op next ih =>
    refine ⟨hguard op w hp.1 hinv, fun answer w' hw' w'' hw'' => ?_⟩
    obtain ⟨hinv', hfact, hkept⟩ := hstep op w answer w' w'' hp.1 hinv hw' hw''
    refine (ih answer (hp.2 answer) hinv').mono fun a w₁ hw₁ => ?_
    obtain ⟨hinv₁, hkept₁, trace, htrace, hall⟩ := hw₁
    exact ⟨hinv₁, fun event hevent => hkept₁ event (hkept event hevent), ⟨op, answer⟩ :: trace, .call htrace,
      List.forall_mem_cons.mpr ⟨hkept₁ _ hfact, hall⟩⟩

def execute (step : (op : Op) → W → Ans op × W) : Prog Ans α → W → α × W
  | .pure a, w => (a, w)
  | .call op next, w => execute step (next (step op w).1) (step op w).2

theorem execute_bind (step : (op : Op) → W → Ans op × W) (p : Prog Ans α) (f : α → Prog Ans β) (w : W) :
    execute step (p >>= f) w = execute step (f (execute step p w).1) (execute step p w).2 := by
  induction p generalizing w with
  | pure a => rfl
  | call op next ih => exact ih _ _

end Prog

namespace Try

/-- Every call is answered as `holds` says, and the program returns `a`. -/
def Gives (holds : Event Ans → Prop) (p : Try Ans ε α) (a : α) : Prop := ∃ trace, Yields p trace a ∧ ∀ event ∈ trace, holds event

variable {p : Try Ans ε α}

theorem safe_gives {L : Logic Ans W} {P : Op → Prop} {inv : W → Prop} (fact : Event Ans → W → Prop) (hguard : ∀ op w, P op → inv w → L.guard op w)
    (hstep : ∀ op w answer w' w'', P op → inv w → L.step op w answer w' → L.rely w' w'' →
      inv w'' ∧ fact ⟨op, answer⟩ w'' ∧ ∀ event, fact event w → fact event w'') (hp : Prog.All P p.run) {w : W} (hinv : inv w) :
    Safe L p (fun a w' => inv w' ∧ Gives (fun event => fact event w') p a) w := by
  refine (Prog.safe_yields fact hguard hstep hp hinv).mono fun r w' hw' a ha => ?_
  obtain ⟨hinv', -, trace, htrace, hall⟩ := hw'
  subst ha
  exact ⟨hinv', trace, htrace, hall⟩

theorem execute_bind_ok {step : (op : Op) → W → Ans op × W} {w w' : W} {a : α} (h : Prog.execute step p.run w = (.ok a, w'))
    (f : α → Try Ans ε β) : Prog.execute step (p >>= f).run w = Prog.execute step (f a).run w' := by
  rw [show (p >>= f).run = (p.run >>= fun r => ExceptT.bindCont f r : Prog Ans (Except ε β)) from rfl, Prog.execute_bind, h]
  rfl

variable {holds holds' : Event Ans → Prop}

theorem Gives.unique (hone : ∀ op a b, holds ⟨op, a⟩ → holds ⟨op, b⟩ → a = b) {a b : α} (h : Gives holds p a)
    (h' : Gives holds p b) : a = b := by
  obtain ⟨trace, htrace, hall⟩ := h
  obtain ⟨trace', htrace', hall'⟩ := h'
  exact Except.ok.inj (Prog.Yields.unique hone htrace htrace' hall hall')

theorem gives_pure_iff {a b : α} : Gives holds (pure a : Try Ans ε α) b ↔ b = a := by
  constructor
  · rintro ⟨trace, htrace, -⟩
    exact (yields_pure_iff.mp htrace).2
  · rintro rfl
    exact ⟨[], yields_pure_iff.mpr ⟨rfl, rfl⟩, List.forall_mem_nil _⟩

theorem gives_bind_iff {f : α → Try Ans ε β} {b : β} :
    Gives holds (p >>= f) b ↔ ∃ a, Gives holds p a ∧ Gives holds (f a) b := by
  constructor
  · rintro ⟨trace, htrace, hall⟩
    obtain ⟨front, back, a, rfl, hfront, hback⟩ := yields_bind_iff.mp htrace
    obtain ⟨hallFront, hallBack⟩ := List.forall_mem_append.mp hall
    exact ⟨a, ⟨front, hfront, hallFront⟩, back, hback, hallBack⟩
  · rintro ⟨a, ⟨front, hfront, hallFront⟩, back, hback, hallBack⟩
    exact ⟨front ++ back, yields_bind_iff.mpr ⟨front, back, a, rfl, hfront, hback⟩, List.forall_mem_append.mpr ⟨hallFront, hallBack⟩⟩

theorem Gives.foldlM {f : σ → β → Try Ans ε σ} (inv : List β → σ → Prop)
    (hbody : ∀ x rest s s', inv (x :: rest) s → Gives holds (f s x) s' → inv rest s') {l : List β} {s s' : σ}
    (h : Gives holds (l.foldlM f s) s') (hstart : inv l s) : inv [] s' := by
  induction l generalizing s with
  | nil =>
    rw [List.foldlM_nil, gives_pure_iff] at h
    exact h ▸ hstart
  | cons x rest ih =>
    rw [List.foldlM_cons, gives_bind_iff] at h
    obtain ⟨s₁, hround, hrest⟩ := h
    exact ih hrest (hbody x rest s s₁ hstart hround)

theorem Gives.foldlM_congr {f : σ → β → Try Ans ε σ} {l : List β} (hbody : ∀ x ∈ l, ∀ s s', Gives holds (f s x) s' → Gives holds' (f s x) s')
    {s s' : σ} (h : Gives holds (l.foldlM f s) s') : Gives holds' (l.foldlM f s) s' := by
  induction l generalizing s with
  | nil => exact gives_pure_iff.mpr (gives_pure_iff.mp h)
  | cons x rest ih =>
    rw [List.foldlM_cons, gives_bind_iff] at h ⊢
    obtain ⟨s₁, hround, hrest⟩ := h
    exact ⟨s₁, hbody x List.mem_cons_self s s₁ hround, ih (fun y hy => hbody y (List.mem_cons_of_mem x hy)) hrest⟩

theorem exists_gives_foldlM {f : σ → β → Try Ans ε σ} (hbody : ∀ s x, ∃ s', Gives holds (f s x) s') (l : List β) (s : σ) :
    ∃ s', Gives holds (l.foldlM f s) s' := by
  induction l generalizing s with
  | nil => exact ⟨s, gives_pure_iff.mpr rfl⟩
  | cons x rest ih =>
    obtain ⟨s₁, hround⟩ := hbody s x
    obtain ⟨s', hrest⟩ := ih s₁
    rw [List.foldlM_cons]
    exact ⟨s', gives_bind_iff.mpr ⟨s₁, hround, hrest⟩⟩

theorem gives_gather_iff {g : β → Try Ans ε α} {l : List β} {gathered result : List α} :
    Gives holds (l.foldlM (fun gathered x => do
      let y ← g x
      pure (gathered ++ [y])) gathered) result ↔ ∃ ys, result = gathered ++ ys ∧ List.Forall₂ (fun x y => Gives holds (g x) y) l ys := by
  induction l generalizing gathered with
  | nil =>
    rw [List.foldlM_nil, gives_pure_iff]
    constructor
    · rintro rfl
      exact ⟨[], (List.append_nil _).symm, .nil⟩
    · rintro ⟨ys, rfl, hys⟩
      cases hys
      exact List.append_nil gathered
  | cons x rest ih =>
    rw [List.foldlM_cons, gives_bind_iff]
    constructor
    · rintro ⟨s, hround, hrest⟩
      obtain ⟨y, hy, hpure⟩ := gives_bind_iff.mp hround
      rw [gives_pure_iff] at hpure
      rw [hpure] at hrest
      obtain ⟨ys, rfl, hys⟩ := ih.mp hrest
      exact ⟨y :: ys, by rw [List.append_assoc, List.singleton_append], .cons hy hys⟩
    · rintro ⟨ys, rfl, hys⟩
      cases hys with
      | cons hy hrest =>
        rename_i y ys
        refine ⟨gathered ++ [y], gives_bind_iff.mpr ⟨y, hy, gives_pure_iff.mpr rfl⟩, ih.mpr ⟨ys, ?_, hrest⟩⟩
        rw [List.append_assoc, List.singleton_append]

end Try

end Interaction
