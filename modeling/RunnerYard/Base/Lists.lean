import Mathlib.Algebra.Order.BigOperators.Group.List
import Mathlib.Algebra.BigOperators.Group.List.Basic
import Mathlib.Data.List.Nodup
import Mathlib.Algebra.Order.Ring.Int

/-!
# Lists updated at their first match, and lists searched by key

`slices.IndexFunc` followed by an assignment to the element found. The lemmas say what such an update keeps: the keys when the replacement has the key of what it replaces, and sums up to the change at the one element.
-/

namespace RunnerYard

variable {α β : Type}

/-- Replace the first element that satisfies `p` by its image under `f`. -/
def updateFirst (p : α → Bool) (f : α → α) : List α → List α
  | [] => []
  | x :: xs => if p x then f x :: xs else x :: updateFirst p f xs

variable {l : List α} {p : α → Bool} {f : α → α}

theorem mem_updateFirst {y : α} (hy : y ∈ updateFirst p f l) :
    y ∈ l ∨ ∃ x, l.find? p = some x ∧ y = f x := by
  induction l with
  | nil => simp [updateFirst] at hy
  | cons x xs ih =>
    by_cases hx : p x
    · rw [updateFirst, if_pos hx, List.mem_cons] at hy
      rcases hy with rfl | hy
      · exact Or.inr ⟨x, by simp [hx], rfl⟩
      · exact Or.inl (List.mem_cons_of_mem _ hy)
    · rw [updateFirst, if_neg hx, List.mem_cons] at hy
      rcases hy with rfl | hy
      · exact Or.inl (by simp)
      · rcases ih hy with hy | ⟨z, hz, rfl⟩
        · exact Or.inl (List.mem_cons_of_mem _ hy)
        · exact Or.inr ⟨z, by simpa [hx] using hz, rfl⟩

theorem apply_mem_updateFirst {x : α} (hx : l.find? p = some x) :
    f x ∈ updateFirst p f l := by
  induction l with
  | nil => simp at hx
  | cons y ys ih =>
    by_cases hy : p y
    · simp only [List.find?_cons, hy, Option.some.injEq] at hx
      rw [updateFirst, if_pos hy, hx]
      exact List.mem_cons_self
    · rw [updateFirst, if_neg hy]
      exact List.mem_cons_of_mem _ (ih (by simpa [hy] using hx))

theorem mem_updateFirst_of_not {x : α} (hx : x ∈ l) (hp : p x = false) :
    x ∈ updateFirst p f l := by
  induction l with
  | nil => simp at hx
  | cons y ys ih =>
    rcases List.mem_cons.mp hx with rfl | hx
    · rw [updateFirst, hp, if_neg (by simp)]
      exact List.mem_cons_self
    · by_cases hy : p y
      · rw [updateFirst, if_pos hy]
        exact List.mem_cons_of_mem _ hx
      · rw [updateFirst, if_neg hy]
        exact List.mem_cons_of_mem _ (ih hx)

theorem map_updateFirst {key : α → β} (hkey : ∀ x, p x → key (f x) = key x)
    (l : List α) : (updateFirst p f l).map key = l.map key := by
  induction l with
  | nil => rfl
  | cons x xs ih =>
    by_cases hx : p x
    · rw [updateFirst, if_pos hx, List.map_cons, List.map_cons, hkey x hx]
    · rw [updateFirst, if_neg hx, List.map_cons, List.map_cons, ih]

theorem find?_key_eq_some_iff [DecidableEq β] {key : α → β} (hl : (l.map key).Nodup) {k : β} {x : α} :
    l.find? (fun y => decide (key y = k)) = some x ↔ x ∈ l ∧ key x = k := by
  constructor
  · intro h
    exact ⟨List.mem_of_find?_eq_some h, by simpa using List.find?_some h⟩
  · rintro ⟨hmem, rfl⟩
    induction l with
    | nil => simp at hmem
    | cons y ys ih =>
      simp only [List.map_cons, List.nodup_cons] at hl
      rcases List.mem_cons.mp hmem with rfl | hmem
      · simp
      · have hne : key y ≠ key x := fun heq => hl.1 (heq ▸ List.mem_map_of_mem hmem)
        simpa [List.find?_cons, hne] using ih hl.2 hmem

theorem mem_of_foldl_pick {f : Option α → α → Option α} {P : α → Prop} (hf : ∀ best x, f best x = best ∨ f best x = some x ∧ P x)
    {b : α} (h : l.foldl f none = some b) : b ∈ l ∧ P b := by
  suffices hfold : ∀ (rest : List α) (best : Option α), (∀ x ∈ rest, x ∈ l) → (∀ x, best = some x → x ∈ l ∧ P x) →
      ∀ x, rest.foldl f best = some x → x ∈ l ∧ P x from hfold l none (fun _ => id) (fun x hx => by simp at hx) b h
  intro rest
  induction rest with
  | nil => exact fun best _ hbest x hx => hbest x hx
  | cons y rest ih =>
    intro best hrest hbest
    rw [List.foldl_cons]
    refine ih _ (fun x hx => hrest x (List.mem_cons_of_mem _ hx)) fun x hx => ?_
    rcases hf best y with heq | ⟨heq, hP⟩
    · exact hbest x (heq ▸ hx)
    · rw [heq, Option.some.injEq] at hx
      exact hx ▸ ⟨hrest y List.mem_cons_self, hP⟩

theorem sum_map_le_of_sublist {g : α → Int} {l₁ l₂ : List α} (hsub : l₁.Sublist l₂)
    (hg : ∀ x ∈ l₂, 0 ≤ g x) : (l₁.map g).sum ≤ (l₂.map g).sum := by
  induction hsub with
  | slnil => simp
  | cons x hsub ih =>
    have hx := hg x (by simp)
    have hrest := ih fun y hy => hg y (by simp [hy])
    simp only [List.map_cons, List.sum_cons]
    omega
  | cons_cons x hsub ih =>
    have hrest := ih fun y hy => hg y (by simp [hy])
    simp only [List.map_cons, List.sum_cons]
    omega

/-! ### The first elements of a list in an order -/

/-- `kept` holds the first `n` elements of `l` in the order `r`, or all of them if there are fewer. -/
structure IsFirst (r : α → α → Prop) (n : Nat) (l kept : List α) : Prop where
  nodup : kept.Nodup
  length : kept.length = min n l.length
  mem : ∀ x ∈ kept, x ∈ l
  first : ∀ x ∈ kept, ∀ y ∈ l, y ∉ kept → r x y

theorem isFirst_take {r : α → α → Prop} {sorted : List α} (hperm : sorted.Perm l) (hsorted : sorted.Pairwise r) (hnodup : l.Nodup) (n : Nat) :
    IsFirst r n l (sorted.take n) where
  nodup := (hperm.nodup_iff.mpr hnodup).sublist (List.take_sublist n sorted)
  length := by rw [List.length_take, hperm.length_eq]
  mem x hx := hperm.mem_iff.mp (List.mem_of_mem_take hx)
  first x hx y hy hlater := by
    have hmem : y ∈ sorted.take n ++ sorted.drop n := by
      rw [List.take_append_drop]
      exact hperm.mem_iff.mpr hy
    have hdrop : y ∈ sorted.drop n := (List.mem_append.mp hmem).resolve_left hlater
    rw [← List.take_append_drop n sorted] at hsorted
    exact (List.pairwise_append.mp hsorted).2.2 x hx y hdrop

end RunnerYard
