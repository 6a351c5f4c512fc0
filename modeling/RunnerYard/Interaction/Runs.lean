import Mathlib.Logic.Basic

/-!
# Runs of a step function

The states that a machine with a partial step function reaches when each of its steps is one that `ok` admits, and the runs that a list of labels spells out.
-/

namespace Interaction

variable {S L : Type}

inductive Reach (step : L → S → Option S) (ok : S → L → Prop) (s₀ : S) : S → Prop
  | start : Reach step ok s₀ s₀
  | step {s s' : S} {label : L} : Reach step ok s₀ s → ok s label → step label s = some s' → Reach step ok s₀ s'

namespace Reach

variable {step : L → S → Option S} {ok : S → L → Prop} {s₀ s : S}

/-- What holds at the start and is kept by every admitted step holds in every state reached. -/
theorem invariant {P : S → Prop} (h : Reach step ok s₀ s) (hstart : P s₀)
    (hstep : ∀ {s s' label}, P s → ok s label → step label s = some s' → P s') : P s := by
  induction h with
  | start => exact hstart
  | step _ hok hlabel ih => exact hstep ih hok hlabel

end Reach

def replay (step : L → S → Option S) : List L → S → Option S
  | [], s => some s
  | label :: labels, s => (step label s).bind (replay step labels)

def Obeys (step : L → S → Option S) (ok : S → L → Prop) : List L → S → Prop
  | [], _ => True
  | label :: labels, s => ok s label ∧ ∀ next ∈ step label s, Obeys step ok labels next

instance decidableObeys (step : L → S → Option S) (ok : S → L → Prop) [∀ s label, Decidable (ok s label)] :
    (labels : List L) → (s : S) → Decidable (Obeys step ok labels s)
  | [], _ => instDecidableTrue
  | label :: labels, s =>
    have : Decidable (∀ next ∈ step label s, Obeys step ok labels next) :=
      match step label s with
      | none => isTrue (by simp)
      | some next =>
        have := decidableObeys step ok labels next
        decidable_of_iff (Obeys step ok labels next) (by simp)
    inferInstanceAs (Decidable (_ ∧ _))

theorem Reach.of_replay {step : L → S → Option S} {ok : S → L → Prop} {s₀ s s' : S} (h : Reach step ok s₀ s) {labels : List L}
    (hok : Obeys step ok labels s) (hrun : replay step labels s = some s') : Reach step ok s₀ s' := by
  induction labels generalizing s with
  | nil =>
    simp only [replay, Option.some.injEq] at hrun
    exact hrun ▸ h
  | cons label rest ih =>
    obtain ⟨next, hnext, hrest⟩ := Option.bind_eq_some_iff.mp hrun
    exact ih (h.step hok.1 hnext) (hok.2 next hnext) hrest

def recording {G : Type} (step : L → S → Option S) (record : G → S → L → S → G) : L → S × G → Option (S × G)
  | label, (s, g) => (step label s).map fun s' => (s', record g s label s')

theorem recording_cases {G : Type} {step : L → S → Option S} {record : G → S → L → S → G} {label : L} {r r' : S × G}
    (h : recording step record label r = some r') : step label r.1 = some r'.1 ∧ r'.2 = record r.2 r.1 label r'.1 := by
  obtain ⟨s', hstep, rfl⟩ := Option.map_eq_some_iff.mp h
  exact ⟨hstep, rfl⟩

end Interaction
