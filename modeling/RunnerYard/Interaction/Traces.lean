import RunnerYard.Interaction.Fallible

/-!
# Traces of a program

What a program does when its calls are answered in any way at all: the calls it made with the answers it got, and what it returned. No world is involved, so whatever is proved of every trace holds whatever the calls do.
-/

namespace Interaction

variable {Op : Type} {Ans : Op → Type} {α β σ ε : Type}

abbrev Event {Op : Type} (Ans : Op → Type) := (op : Op) × Ans op

namespace Prog

inductive Yields : Prog Ans α → List (Event Ans) → α → Prop
  | pure (a : α) : Yields (.pure a) [] a
  | call {op : Op} {next : Ans op → Prog Ans α} {answer : Ans op} {trace : List (Event Ans)} {a : α} (h : Yields (next answer) trace a) :
      Yields (.call op next) (⟨op, answer⟩ :: trace) a

variable {trace : List (Event Ans)}

theorem yields_pure_iff {a b : α} : Yields (Pure.pure a : Prog Ans α) trace b ↔ trace = [] ∧ b = a := by
  constructor
  · intro h
    cases h
    exact ⟨rfl, rfl⟩
  · rintro ⟨rfl, rfl⟩
    exact .pure b

theorem yields_bind_iff {p : Prog Ans α} {f : α → Prog Ans β} {b : β} :
    Yields (p >>= f) trace b ↔ ∃ front back a, trace = front ++ back ∧ Yields p front a ∧ Yields (f a) back b := by
  constructor
  · intro h
    induction p generalizing trace with
    | pure a => exact ⟨[], trace, a, rfl, .pure a, h⟩
    | call op next ih =>
      cases h with
      | call hrest =>
        obtain ⟨front, back, a, rfl, hfront, hback⟩ := ih _ hrest
        exact ⟨_ :: front, back, a, rfl, .call hfront, hback⟩
  · rintro ⟨front, back, a, rfl, hfront, hback⟩
    induction hfront with
    | pure a => exact hback
    | call _ ih => exact .call (ih hback)

theorem All.of_yields {P : Op → Prop} {p : Prog Ans α} {a : α} (h : All P p) (hyields : Yields p trace a) :
    ∀ event ∈ trace, P event.1 := by
  induction hyields with
  | pure a => simp
  | call _ ih => exact List.forall_mem_cons.mpr ⟨h.1, ih (h.2 _)⟩

theorem yields_perform_iff {op : Op} {a : Ans op} : Yields (perform op) trace a ↔ trace = [⟨op, a⟩] := by
  constructor
  · intro h
    cases h with
    | call hrest =>
      cases hrest
      rfl
  · rintro rfl
    exact .call (.pure a)

end Prog

namespace Try

def Yields (p : Try Ans ε α) (trace : List (Event Ans)) (a : α) : Prop := Prog.Yields p.run trace (.ok a)

variable {trace : List (Event Ans)}

@[simp] theorem yields_pure_iff {a b : α} : Yields (pure a : Try Ans ε α) trace b ↔ trace = [] ∧ b = a := by
  unfold Yields
  rw [show (pure a : Try Ans ε α).run = (pure (.ok a) : Prog Ans (Except ε α)) from rfl, Prog.yields_pure_iff, Except.ok.injEq]

theorem not_yields_throw (failure : ε) {a : α} : ¬Yields (throw failure : Try Ans ε α) trace a := by
  intro h
  cases h

theorem yields_bind_iff {p : Try Ans ε α} {f : α → Try Ans ε β} {b : β} :
    Yields (p >>= f) trace b ↔ ∃ front back a, trace = front ++ back ∧ Yields p front a ∧ Yields (f a) back b := by
  unfold Yields
  rw [show (p >>= f).run = (p.run >>= fun r => ExceptT.bindCont f r : Prog Ans (Except ε β)) from rfl, Prog.yields_bind_iff]
  constructor
  · rintro ⟨front, back, r, rfl, hp, hf⟩
    cases r with
    | ok a => exact ⟨front, back, a, rfl, hp, hf⟩
    | error failure => cases hf
  · rintro ⟨front, back, a, rfl, hp, hf⟩
    exact ⟨front, back, .ok a, rfl, hp, hf⟩

theorem yields_lift_iff {p : Prog Ans α} {a : α} : Yields (ExceptT.lift p : Try Ans ε α) trace a ↔ Prog.Yields p trace a := by
  unfold Yields
  rw [show (ExceptT.lift p : Try Ans ε α).run = (p >>= fun a => pure (.ok a) : Prog Ans (Except ε α)) from rfl, Prog.yields_bind_iff]
  constructor
  · rintro ⟨front, back, a', rfl, hp, hpure⟩
    rw [Prog.yields_pure_iff, Except.ok.injEq] at hpure
    obtain ⟨rfl, rfl⟩ := hpure
    rwa [List.append_nil]
  · intro hp
    exact ⟨trace, [], a, (List.append_nil trace).symm, hp, .pure _⟩

theorem Yields.foldlM {f : σ → β → Try Ans ε σ} (inv : List β → σ → List (Event Ans) → Prop)
    (hbody : ∀ x rest s s' before trace, inv (x :: rest) s before → Yields (f s x) trace s' → inv rest s' (before ++ trace)) {l : List β} {s s' : σ}
    (h : Yields (l.foldlM f s) trace s') (hstart : inv l s []) : inv [] s' trace := by
  have hfrom : ∀ before, inv l s before → inv [] s' (before ++ trace) := by
    clear hstart
    induction l generalizing s trace with
    | nil =>
      intro before hstart
      rw [List.foldlM_nil, yields_pure_iff] at h
      obtain ⟨rfl, rfl⟩ := h
      rwa [List.append_nil]
    | cons x rest ih =>
      intro before hstart
      rw [List.foldlM_cons, yields_bind_iff] at h
      obtain ⟨front, back, s₁, rfl, hfirst, hrest⟩ := h
      rw [← List.append_assoc]
      exact ih hrest (before ++ front) (hbody x rest s s₁ before front hstart hfirst)
  exact hfrom [] hstart

end Try

end Interaction
