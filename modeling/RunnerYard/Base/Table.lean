import RunnerYard.Base.Lists

/-!
# Tables

A finite map whose rows carry their own key, as a Go map that is only ever written at a field of the value. The rows are in no particular order.
-/

namespace RunnerYard

variable {α κ : Type} [DecidableEq κ]

structure Table (key : α → κ) where
  rows : List α
  nodup : (rows.map key).Nodup

namespace Table

variable {key : α → κ}

instance [DecidableEq α] : DecidableEq (Table key) := fun a b =>
  decidable_of_iff (a.rows = b.rows) ⟨fun h => by cases a; cases b; cases h; rfl, fun h => h ▸ rfl⟩

def empty : Table key := ⟨[], List.nodup_nil⟩

def get (t : Table key) (k : κ) : Option α := t.rows.find? fun x => key x = k

def filter (t : Table key) (p : α → Bool) : Table key := ⟨t.rows.filter p, t.nodup.sublist (List.filter_sublist.map key)⟩

def erase (t : Table key) (k : κ) : Table key := t.filter fun x => key x ≠ k

def put (t : Table key) (x : α) : Table key where
  rows := x :: (t.erase (key x)).rows
  nodup := by
    refine List.nodup_cons.mpr ⟨?_, (t.erase (key x)).nodup⟩
    intro hmem
    obtain ⟨y, hy, hkey⟩ := List.mem_map.mp hmem
    simpa [hkey] using (List.mem_filter.mp hy).2

def map (t : Table key) (f : α → α) (hf : ∀ x, key (f x) = key x) : Table key where
  rows := t.rows.map f
  nodup := by
    rw [List.map_map, show key ∘ f = key from funext hf]
    exact t.nodup

def size (t : Table key) : Nat := t.rows.length

variable {t : Table key} {x : α} {k : κ}

theorem get_eq_some_iff : t.get k = some x ↔ x ∈ t.rows ∧ key x = k :=
  find?_key_eq_some_iff t.nodup

theorem get_eq_none_iff : t.get k = none ↔ ∀ x ∈ t.rows, key x ≠ k := by
  simp [get]

theorem key_of_get (h : t.get k = some x) : key x = k := (get_eq_some_iff.mp h).2

theorem mem_of_get (h : t.get k = some x) : x ∈ t.rows := (get_eq_some_iff.mp h).1

theorem get_of_mem (h : x ∈ t.rows) : t.get (key x) = some x := get_eq_some_iff.mpr ⟨h, rfl⟩

theorem get_congr {t' : Table key} (h : ∀ x, x ∈ t.rows ↔ x ∈ t'.rows) (k : κ) : t.get k = t'.get k := by
  apply Option.ext
  intro x
  rw [get_eq_some_iff, get_eq_some_iff, h x]

@[simp] theorem get_empty (k : κ) : (empty : Table key).get k = none := rfl

theorem mem_erase : x ∈ (t.erase k).rows ↔ x ∈ t.rows ∧ key x ≠ k := by
  simp [erase, filter]

theorem mem_put {y : α} : y ∈ (t.put x).rows ↔ y = x ∨ y ∈ t.rows ∧ key y ≠ key x := by
  simp [put, mem_erase]

@[simp] theorem get_erase_self (t : Table key) (k : κ) : (t.erase k).get k = none := by
  simp [get_eq_none_iff, mem_erase]

theorem get_erase_of_ne {k' : κ} (h : k' ≠ k) : (t.erase k).get k' = t.get k' := by
  apply Option.ext
  intro x
  simp only [get_eq_some_iff, mem_erase]
  constructor
  · exact fun hx => ⟨hx.1.1, hx.2⟩
  · exact fun hx => ⟨⟨hx.1, hx.2 ▸ h⟩, hx.2⟩

@[simp] theorem get_put_self (t : Table key) (x : α) : (t.put x).get (key x) = some x :=
  get_of_mem (mem_put.mpr (Or.inl rfl))

theorem get_put_of_ne (h : k ≠ key x) : (t.put x).get k = t.get k := by
  apply Option.ext
  intro y
  simp only [get_eq_some_iff, mem_put]
  constructor
  · rintro ⟨rfl | hy, hkey⟩
    · exact absurd hkey.symm h
    · exact ⟨hy.1, hkey⟩
  · exact fun hy => ⟨Or.inr ⟨hy.1, hy.2 ▸ h⟩, hy.2⟩

theorem get_filter (t : Table key) (p : α → Bool) (k : κ) : (t.filter p).get k = (t.get k).filter p := by
  apply Option.ext
  intro x
  rw [Option.filter_eq_some_iff, get_eq_some_iff, get_eq_some_iff]
  simp only [filter, List.mem_filter]
  constructor
  · rintro ⟨⟨hmem, hp⟩, hkey⟩
    exact ⟨⟨hmem, hkey⟩, hp⟩
  · rintro ⟨⟨hmem, hkey⟩, hp⟩
    exact ⟨⟨hmem, hp⟩, hkey⟩

theorem get_map (t : Table key) (f : α → α) (hf : ∀ x, key (f x) = key x) (k : κ) : (t.map f hf).get k = (t.get k).map f := by
  apply Option.ext
  intro y
  rw [get_eq_some_iff, Option.map_eq_some_iff]
  simp only [map, List.mem_map]
  constructor
  · rintro ⟨⟨x, hmem, rfl⟩, hkey⟩
    exact ⟨x, get_eq_some_iff.mpr ⟨hmem, (hf x).symm.trans hkey⟩, rfl⟩
  · rintro ⟨x, hget, rfl⟩
    exact ⟨⟨x, mem_of_get hget, rfl⟩, (hf x).trans (key_of_get hget)⟩

theorem get_put (t : Table key) (x : α) (k : κ) : (t.put x).get k = if k = key x then some x else t.get k := by
  split
  · rename_i heq
    rw [heq, get_put_self]
  · rename_i hne
    exact get_put_of_ne hne

theorem get_erase (t : Table key) (k k' : κ) : (t.erase k).get k' = if k' = k then none else t.get k' := by
  split
  · rename_i heq
    rw [heq, get_erase_self]
  · rename_i hne
    exact get_erase_of_ne hne

theorem mem_of_mem_foldl_put {l : List α} (h : x ∈ (l.foldl put t).rows) : x ∈ l ∨ x ∈ t.rows := by
  induction l generalizing t with
  | nil => exact Or.inr h
  | cons y rest ih =>
    rcases ih h with hx | hx
    · exact Or.inl (List.mem_cons_of_mem _ hx)
    · rcases mem_put.mp hx with rfl | ⟨hx, -⟩
      · exact Or.inl List.mem_cons_self
      · exact Or.inr hx

theorem get_foldl_put_of_not_mem {l : List α} (h : k ∉ l.map key) (t : Table key) : (l.foldl put t).get k = t.get k := by
  induction l generalizing t with
  | nil => rfl
  | cons y rest ih =>
    rw [List.map_cons, List.mem_cons, not_or] at h
    rw [List.foldl_cons, ih h.2, get_put_of_ne h.1]

theorem get_foldl_put {l : List α} (hl : (l.map key).Nodup) (t : Table key) (hx : x ∈ l) :
    (l.foldl put t).get (key x) = some x := by
  induction l generalizing t with
  | nil => exact absurd hx List.not_mem_nil
  | cons y rest ih =>
    obtain ⟨hy, hrest⟩ := List.nodup_cons.mp hl
    rw [List.foldl_cons]
    rcases List.mem_cons.mp hx with rfl | hx
    · rw [get_foldl_put_of_not_mem hy, get_put_self]
    · exact ih hrest _ hx

omit [DecidableEq κ] in
theorem eq_empty_of_size (h : t.size = 0) : t = empty := by
  obtain ⟨rows, hnodup⟩ := t
  have hrows : rows = [] := List.length_eq_zero_iff.mp h
  subst hrows
  rfl

theorem countP_erase_le (p : α → Bool) (t : Table key) (k : κ) : (t.erase k).rows.countP p ≤ t.rows.countP p :=
  List.filter_sublist.countP_le

theorem countP_put_le (p : α → Bool) (t : Table key) (x : α) : (t.put x).rows.countP p ≤ t.rows.countP p + (p x).toNat := by
  have herase := t.countP_erase_le p (key x)
  rw [put, List.countP_cons]
  cases p x <;> simp <;> omega

theorem countP_put_of_get {p : α → Bool} {y : α} (h : t.get k = some y) (hkey : key x = k) (hp : p x = true → p y = true) :
    (t.put x).rows.countP p ≤ t.rows.countP p := by
  subst hkey
  rw [put, List.countP_cons]
  by_cases hx : p x = true
  · have hlost : (t.erase (key x)).rows.countP p < t.rows.countP p := by
      rw [erase, filter, List.countP_eq_length_filter, List.countP_eq_length_filter, List.filter_comm]
      refine List.length_filter_lt_length_iff_exists.mpr ⟨y, List.mem_filter.mpr ⟨mem_of_get h, hp hx⟩, ?_⟩
      simp [key_of_get h]
    simp only [hx, if_true]
    omega
  · simp only [hx]
    exact t.countP_erase_le p (key x)

end Table

end RunnerYard
