import RunnerYard.Interaction.Program

/-!
# Programs that end at a failure

A program of type `Try Ans ε α` makes calls that can fail, and a failure that is not handled ends it. `Try.Safe` is `Prog.Safe` for such programs: whatever the program is still to do, every call meets its guard, and `post` holds of what it returns. Nothing is asked of the world in which it fails, since it makes no call there.
-/

namespace Interaction

variable {Op : Type} {Ans : Op → Type} {W α β σ ε : Type}

abbrev Try {Op : Type} (Ans : Op → Type) (ε α : Type) := ExceptT ε (Prog Ans) α

namespace Try

def Safe (L : Logic Ans W) (p : Try Ans ε α) (post : α → W → Prop) (w : W) : Prop :=
  Prog.Safe L p.run (fun r w' => ∀ a, r = .ok a → post a w') w

variable {L : Logic Ans W} {post : α → W → Prop} {w : W}

theorem safe_pure {a : α} (h : post a w) : Safe (ε := ε) L (pure a) post w := by
  rintro a' ⟨⟩
  exact h

theorem safe_throw (failure : ε) : Safe L (throw failure : Try Ans ε α) post w := by
  rintro a ⟨⟩

theorem Safe.mono {p : Try Ans ε α} {post' : α → W → Prop} (h : Safe L p post w) (hpost : ∀ a w, post a w → post' a w) : Safe L p post' w :=
  Prog.Safe.mono h fun _ w' hr a ha => hpost a w' (hr a ha)

theorem Safe.bind {p : Try Ans ε α} {f : α → Try Ans ε β} {M : α → W → Prop} {post : β → W → Prop} (h : Safe L p M w)
    (hf : ∀ a w', M a w' → Safe L (f a) post w') : Safe L (p >>= f) post w := by
  refine Prog.Safe.bind h fun r w' hr => ?_
  cases r with
  | ok a => exact hf a w' (hr a rfl)
  | error failure => rintro b ⟨⟩

theorem safe_lift {p : Prog Ans α} (h : Prog.Safe L p post w) : Safe (ε := ε) L (ExceptT.lift p) post w := by
  refine (Prog.safe_bind p _ _ w).mpr (h.mono fun a w' ha => ?_)
  rintro a' ⟨⟩
  exact ha

theorem safe_foldlM {f : σ → β → Try Ans ε σ} (inv : List β → σ → W → Prop)
    (hbody : ∀ s x rest w, inv (x :: rest) s w → Safe L (f s x) (inv rest) w) {l : List β} {s : σ} (h : inv l s w) :
    Safe L (l.foldlM f s) (inv []) w := by
  induction l generalizing s w with
  | nil => exact safe_pure h
  | cons x rest ih =>
    rw [List.foldlM_cons]
    exact (hbody s x rest w h).bind fun s' w' hs' => ih hs'

end Try

end Interaction
