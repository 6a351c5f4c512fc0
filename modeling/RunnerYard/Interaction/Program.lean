import Mathlib.Logic.Basic
import Mathlib.Data.List.Basic

/-!
# Programs that call out

A program over an interface `Ans : Op → Type` either returns or makes one call and continues with its answer. The interface says nothing of what a call does; that is a relation on worlds, chosen where a program is run or reasoned about.

`Safe` is the judgment all reasoning goes through. It runs a program under a `Logic`: which answers and successor worlds a call may have (`step`), what must hold when a call is made (`guard`), and what others may do to the world between two calls (`rely`).
-/

namespace Interaction

inductive Prog {Op : Type} (Ans : Op → Type) (α : Type) : Type
  | pure (a : α)
  | call (op : Op) (next : Ans op → Prog Ans α)

namespace Prog

variable {Op : Type} {Ans : Op → Type} {α β σ ε : Type}

def bind : Prog Ans α → (α → Prog Ans β) → Prog Ans β
  | .pure a, f => f a
  | .call op next, f => .call op fun answer => (next answer).bind f

instance : Monad (Prog Ans) where
  pure := .pure
  bind := bind

def perform (op : Op) : Prog Ans (Ans op) := .call op .pure

def forEach (body : σ → β → Prog Ans (σ × Option ε)) : List β → σ → Prog Ans (σ × Option ε)
  | [], s => Pure.pure (s, none)
  | x :: rest, s => do
    match ← body s x with
    | (s, none) => forEach body rest s
    | (s, some failure) => Pure.pure (s, some failure)

/-- The same program over an interface that embeds this one. -/
def embed {Op' : Type} {Ans' : Op' → Type} (f : Op → Op') (g : (op : Op) → Ans' (f op) → Ans op) :
    Prog Ans α → Prog Ans' α
  | .pure a => .pure a
  | .call op next => .call (f op) fun answer => (next (g op answer)).embed f g

end Prog

/-- What is known of the calls while a program runs. -/
structure Logic {Op : Type} (Ans : Op → Type) (W : Type) where
  step : (op : Op) → W → Ans op → W → Prop
  guard : Op → W → Prop
  rely : W → W → Prop

namespace Prog

variable {Op : Type} {Ans : Op → Type} {W α β σ ε : Type}

/-- From `w`, every call the program makes meets its guard, and what it returns meets `post`. -/
def Safe (L : Logic Ans W) : Prog Ans α → (α → W → Prop) → W → Prop
  | .pure a, post, w => post a w
  | .call op next, post, w =>
    L.guard op w ∧ ∀ answer w', L.step op w answer w' → ∀ w'', L.rely w' w'' → (next answer).Safe L post w''

variable {L : Logic Ans W}

@[simp] theorem safe_pure (a : α) (post : α → W → Prop) (w : W) :
    Safe L (Pure.pure a : Prog Ans α) post w ↔ post a w :=
  Iff.rfl

variable {w : W} {p : Prog Ans α} {post : α → W → Prop}

theorem safe_perform {op : Op} {post : Ans op → W → Prop} (hguard : L.guard op w)
    (hpost : ∀ answer w', L.step op w answer w' → ∀ w'', L.rely w' w'' → post answer w'') :
    Safe L (perform op) post w :=
  ⟨hguard, hpost⟩

@[simp] theorem safe_bind (p : Prog Ans α) (f : α → Prog Ans β) (post : β → W → Prop) (w : W) :
    Safe L (p >>= f) post w ↔ Safe L p (fun a w' => Safe L (f a) post w') w := by
  induction p generalizing w with
  | pure a => exact Iff.rfl
  | call op next ih =>
    constructor
    · rintro ⟨hguard, hnext⟩
      exact ⟨hguard, fun answer w' hstep w'' hrely => (ih answer w'').mp (hnext answer w' hstep w'' hrely)⟩
    · rintro ⟨hguard, hnext⟩
      exact ⟨hguard, fun answer w' hstep w'' hrely => (ih answer w'').mpr (hnext answer w' hstep w'' hrely)⟩

theorem Safe.weaken {L' : Logic Ans W} {post' : α → W → Prop} (h : Safe L p post w)
    (hguard : ∀ op w, L.guard op w → L'.guard op w)
    (hstep : ∀ op w answer w', L.guard op w → L'.step op w answer w' → L.step op w answer w')
    (hrely : ∀ w w', L'.rely w w' → L.rely w w') (hpost : ∀ a w, post a w → post' a w) : Safe L' p post' w := by
  induction p generalizing w with
  | pure a => exact hpost a w h
  | call op next ih =>
    obtain ⟨hop, hnext⟩ := h
    exact ⟨hguard op w hop, fun answer w' hw' w'' hw'' =>
      ih answer (hnext answer w' (hstep op w answer w' hop hw') w'' (hrely w' w'' hw''))⟩

theorem Safe.mono {post' : α → W → Prop} (h : Safe L p post w)
    (hpost : ∀ a w, post a w → post' a w) : Safe L p post' w :=
  h.weaken (fun _ _ => id) (fun _ _ _ _ _ => id) (fun _ _ => id) hpost

theorem Safe.bind {f : α → Prog Ans β} {M : α → W → Prop} {post : β → W → Prop} (h : Safe L p M w)
    (hf : ∀ a w', M a w' → Safe L (f a) post w') : Safe L (p >>= f) post w :=
  (safe_bind p f post w).mpr (h.mono hf)

/-- A program verified for one owner runs among others' state: what its own calls and the rely keep, it keeps. -/
theorem Safe.frame {L' : Logic Ans W} {frame : W → Prop}
    (h : Safe L p post w) (hframe : frame w)
    (hguard : ∀ op w, frame w → L.guard op w → L'.guard op w)
    (hstep : ∀ op w answer w', frame w → L.guard op w → L'.step op w answer w' → L.step op w answer w' ∧ frame w')
    (hrely : ∀ w w', frame w → L'.rely w w' → L.rely w w' ∧ frame w') :
    Safe L' p (fun a w => post a w ∧ frame w) w := by
  induction p generalizing w with
  | pure a => exact ⟨h, hframe⟩
  | call op next ih =>
    obtain ⟨hop, hnext⟩ := h
    refine ⟨hguard op w hframe hop, fun answer w' hw' w'' hw'' => ?_⟩
    obtain ⟨hown, hkept⟩ := hstep op w answer w' hframe hop hw'
    obtain ⟨hown', hkept'⟩ := hrely w' w'' hkept hw''
    exact ih answer (hnext answer w' hown w'' hown') hkept'

/-- A judgment about an abstract world carries over to every world it describes. -/
theorem Safe.simulate {V : Type} {K : Logic Ans V} {post : α → V → Prop} {v : V} (h : Safe K p post v)
    (R : V → W → Prop) (hR : R v w) (hguard : ∀ op v w, R v w → K.guard op v → L.guard op w)
    (hstep : ∀ op v w answer w₁ w₂, R v w → K.guard op v → L.step op w answer w₁ → L.rely w₁ w₂ →
      ∃ v₁ v₂, K.step op v answer v₁ ∧ K.rely v₁ v₂ ∧ R v₂ w₂) :
    Safe L p (fun a w' => ∃ v', R v' w' ∧ post a v') w := by
  induction p generalizing v w with
  | pure a => exact ⟨v, hR, h⟩
  | call op next ih =>
    obtain ⟨hop, hnext⟩ := h
    refine ⟨hguard op v w hR hop, fun answer w₁ hw₁ w₂ hw₂ => ?_⟩
    obtain ⟨v₁, v₂, hv₁, hv₂, hR'⟩ := hstep op v w answer w₁ w₂ hR hop hw₁ hw₂
    exact ih answer (hnext answer v₁ hv₁ v₂ hv₂) hR'

theorem safe_forEach {body : σ → β → Prog Ans (σ × Option ε)} (inv : List β → σ → W → Prop)
    {post : σ × Option ε → W → Prop}
    (hbody : ∀ x rest s w, inv (x :: rest) s w → Safe L (body s x) (fun r w' =>
      match r with
      | (s', none) => inv rest s' w'
      | (s', some failure) => post (s', some failure) w') w)
    (hdone : ∀ s w, inv [] s w → post (s, none) w) {l : List β} {s : σ} (h : inv l s w) :
    Safe L (forEach body l s) post w := by
  induction l generalizing s w with
  | nil => exact hdone s w h
  | cons x rest ih =>
    rw [forEach, safe_bind]
    refine (hbody x rest s w h).mono fun r w' hr => ?_
    obtain ⟨s', failure⟩ := r
    cases failure with
    | none => exact ih hr
    | some failure => exact hr

/-- A complete run: `L.step` answers each call, and `L.rely` moves the world on before the program continues. -/
inductive Returns (L : Logic Ans W) : Prog Ans α → W → α → W → Prop
  | pure (a : α) (w : W) : Returns L (.pure a) w a w
  | call {op : Op} {next : Ans op → Prog Ans α} {w w₁ w₂ w' : W} {answer : Ans op} {a : α} (hstep : L.step op w answer w₁)
      (hrely : L.rely w₁ w₂) (hnext : Returns L (next answer) w₂ a w') : Returns L (.call op next) w a w'

theorem Safe.returns {w' : W} {a : α} (h : Safe L p post w)
    (hrun : Returns L p w a w') : post a w' := by
  induction hrun with
  | pure a w => exact h
  | call hstep hrely _ ih => exact ih (h.2 _ _ hstep _ hrely)

/-- Run a program with a list of choices for its calls. -/
def play {C : Type} (exec : (op : Op) → C → W → Option (Ans op × W)) : List C → Prog Ans α → W → Option (α × W)
  | _, .pure a, w => some (a, w)
  | [], .call _ _, _ => none
  | choice :: rest, .call op next, w => (exec op choice w).bind fun r => play exec rest (next r.1) r.2

theorem returns_of_play {C : Type} {exec : (op : Op) → C → W → Option (Ans op × W)}
    (hexec : ∀ op choice w answer w', exec op choice w = some (answer, w') → L.step op w answer w') (hrely : ∀ w, L.rely w w)
    {choices : List C} {w' : W} {a : α} (h : play exec choices p w = some (a, w')) : Returns L p w a w' := by
  induction p generalizing choices w with
  | pure b =>
    cases choices <;> simp only [play, Option.some.injEq, Prod.mk.injEq] at h <;> obtain ⟨rfl, rfl⟩ := h <;> exact .pure b w
  | call op next ih =>
    cases choices with
    | nil => simp [play] at h
    | cons choice rest =>
      obtain ⟨⟨answer, w₁⟩, hanswer, hrest⟩ := Option.bind_eq_some_iff.mp h
      exact .call (hexec op choice w answer w₁ hanswer) (hrely w₁) (ih answer hrest)

/-- Every call of the program, whatever the answers, satisfies `P`. -/
def All (P : Op → Prop) : Prog Ans α → Prop
  | .pure _ => True
  | .call op next => P op ∧ ∀ answer, (next answer).All P

variable {P : Op → Prop}

@[simp] theorem all_pure (a : α) : All P (Pure.pure a : Prog Ans α) := trivial

@[simp] theorem all_perform (op : Op) : All P (perform op : Prog Ans (Ans op)) ↔ P op :=
  ⟨And.left, fun h => ⟨h, fun _ => trivial⟩⟩

structure Closed (K : {α : Type} → Prog Ans α → Prop) : Prop where
  pure : ∀ {α : Type} (a : α), K (Pure.pure a)
  bind : ∀ {α β : Type} {p : Prog Ans α} {f : α → Prog Ans β}, K p → (∀ a, K (f a)) → K (p >>= f)

variable {K : {α : Type} → Prog Ans α → Prop}

theorem Closed.forEach (hK : Closed @K) {body : σ → β → Prog Ans (σ × Option ε)} (hbody : ∀ s x, K (body s x)) (l : List β) (s : σ) :
    K (forEach body l s) := by
  induction l generalizing s with
  | nil => exact hK.pure _
  | cons x rest ih =>
    refine hK.bind (hbody s x) fun r => ?_
    obtain ⟨s', failure⟩ := r
    cases failure with
    | none => exact ih s'
    | some failure => exact hK.pure _

theorem Closed.of_all (hK : Closed @K) (h : All P p) (hask : ∀ op, P op → K (perform op)) : K p := by
  induction p with
  | pure a => exact hK.pure a
  | call op next ih => exact hK.bind (hask op h.1) fun answer => ih answer (h.2 answer)

theorem closed_safe (L : Logic Ans W) : Closed fun {_} (p : Prog Ans _) => ∀ w, Safe L p (fun _ _ => True) w where
  pure _ _ := trivial
  bind hp hf w := (hp w).bind fun a w' _ => hf a w'

theorem All.bind {f : α → Prog Ans β} (hp : All P p) (hf : ∀ a, All P (f a)) : All P (p >>= f) := by
  induction p with
  | pure a => exact hf a
  | call op next ih => exact ⟨hp.1, fun answer => ih answer (hp.2 answer)⟩

theorem closed_all : Closed fun {_} (p : Prog Ans _) => All P p := ⟨fun _ => trivial, All.bind⟩

theorem All.mono {Q : Op → Prop} (h : All P p) (hPQ : ∀ op, P op → Q op) : All Q p := by
  induction p with
  | pure a => trivial
  | call op next ih => exact ⟨hPQ op h.1, fun answer => ih answer (h.2 answer)⟩

theorem All.embed {Op' : Type} {Ans' : Op' → Type} {f : Op → Op'} {g : (op : Op) → Ans' (f op) → Ans op} {Q : Op' → Prop}
    (h : All P p) (hPQ : ∀ op, P op → Q (f op)) : All Q (p.embed f g) := by
  induction p with
  | pure a => trivial
  | call op next ih => exact ⟨hPQ op h.1, fun answer => ih (g op answer) (h.2 (g op answer))⟩

theorem All.safe (h : All P p) (keep : W → Prop) (hkeep : keep w)
    (hguard : ∀ op w, P op → keep w → L.guard op w)
    (hstep : ∀ op w answer w' w'', P op → keep w → L.step op w answer w' → L.rely w' w'' → keep w'') :
    Safe L p (fun _ => keep) w := by
  induction p generalizing w with
  | pure a => exact hkeep
  | call op next ih =>
    exact ⟨hguard op w h.1 hkeep, fun answer w' hw' w'' hw'' =>
      ih answer (h.2 answer) (hstep op w answer w' w'' h.1 hkeep hw' hw'')⟩

end Prog

end Interaction
