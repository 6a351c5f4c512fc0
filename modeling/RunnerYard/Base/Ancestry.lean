import Mathlib.Data.List.Basic
import Mathlib.Data.List.Nodup

/-!
# Histories of nodes with parents

A history is a list of nodes, the newest first. A node is added once, above parents that are there before it, so a history has no cycle and what a node is built on never changes. `reaches` is the reflexive and transitive closure of the parent relation, computed.
-/

namespace Ancestry

variable {α : Type} [DecidableEq α]

structure Node (α : Type) where
  id : α
  parents : List α
  deriving DecidableEq, Repr

def ids (nodes : List (Node α)) : List α := nodes.map Node.id

/-- Each node is new, and its parents stand after it. -/
def Ordered : List (Node α) → Prop
  | [] => True
  | node :: rest => node.id ∉ ids rest ∧ (∀ parent ∈ node.parents, parent ∈ ids rest) ∧ Ordered rest

/-- The ids that `x` is built on, and `x` itself. -/
def below : List (Node α) → α → List α
  | [], x => [x]
  | node :: rest, x => if node.id = x then x :: node.parents.flatMap (below rest) else below rest x

theorem mem_ids_of_below {nodes : List (Node α)} (hordered : Ordered nodes) {x y : α} (hx : x ∈ ids nodes) (h : y ∈ below nodes x) :
    y ∈ ids nodes := by
  induction nodes generalizing x with
  | nil => cases hx
  | cons node rest ih =>
    obtain ⟨-, hparents, hrest⟩ := hordered
    rw [below] at h
    rw [ids, List.map_cons, List.mem_cons] at hx ⊢
    split at h
    · rename_i heq
      rcases List.mem_cons.mp h with rfl | hy
      · exact Or.inl heq.symm
      · obtain ⟨parent, hparent, hy⟩ := List.mem_flatMap.mp hy
        exact Or.inr (ih hrest (hparents parent hparent) hy)
    · rename_i hne
      exact Or.inr (ih hrest (hx.resolve_left fun heq => hne heq.symm) h)

structure History (α : Type) [DecidableEq α] where
  nodes : List (Node α)
  ordered : Ordered nodes

namespace History

def empty : History α := ⟨[], trivial⟩

def Knows (h : History α) (x : α) : Prop := x ∈ ids h.nodes

instance (h : History α) (x : α) : Decidable (h.Knows x) := inferInstanceAs (Decidable (x ∈ _))

/-- Whether `y` is built on `x`. -/
def reaches (h : History α) (x y : α) : Bool := x ∈ below h.nodes y

/-- A node whose id is taken or whose parents are missing is not added. -/
def add (h : History α) (id : α) (parents : List α) : History α :=
  if hnew : id ∉ ids h.nodes ∧ ∀ parent ∈ parents, parent ∈ ids h.nodes then ⟨⟨id, parents⟩ :: h.nodes, hnew.1, hnew.2, h.ordered⟩ else h

def extend (h : History α) : α → List α → History α
  | _, [] => h
  | onto, id :: rest => (h.add id [onto]).extend id rest

/-- The last of the nodes that `extend` adds. -/
def tip (onto : α) (added : List α) : α := added.getLast?.getD onto

variable {h : History α} {x y z onto : α}

variable {parents added : List α}

theorem add_of_new {id : α} (hnew : ¬h.Knows id) (hparents : ∀ parent ∈ parents, h.Knows parent) :
    (h.add id parents).nodes = ⟨id, parents⟩ :: h.nodes := by
  rw [add, dif_pos ⟨hnew, hparents⟩]

theorem add_cases (h : History α) (id : α) (parents : List α) :
    h.add id parents = h ∨ ¬h.Knows id ∧ (∀ parent ∈ parents, h.Knows parent) ∧ (h.add id parents).nodes = ⟨id, parents⟩ :: h.nodes := by
  by_cases hnew : id ∉ ids h.nodes ∧ ∀ parent ∈ parents, parent ∈ ids h.nodes
  · exact Or.inr ⟨hnew.1, hnew.2, add_of_new hnew.1 hnew.2⟩
  · exact Or.inl (dif_neg hnew)

theorem knows_add {id : α} (hx : h.Knows x) : (h.add id parents).Knows x := by
  rcases add_cases h id parents with heq | ⟨-, -, heq⟩
  · rwa [heq]
  · rw [Knows, heq]
    exact List.mem_cons_of_mem id hx

theorem knows_of_add {id : α} (hx : (h.add id parents).Knows x) : x = id ∨ h.Knows x := by
  rcases add_cases h id parents with heq | ⟨-, -, heq⟩
  · rw [heq] at hx
    exact Or.inr hx
  · rw [Knows, heq] at hx
    exact List.mem_cons.mp hx

theorem reaches_add {id : α} (hy : h.Knows y) : (h.add id parents).reaches x y = h.reaches x y := by
  rcases add_cases h id parents with heq | ⟨hnew, -, heq⟩
  · rw [heq]
  · have hne : id ≠ y := by
      rintro rfl
      exact hnew hy
    rw [reaches, heq, below, if_neg hne, reaches]

theorem knows_extend (hx : h.Knows x) : (h.extend onto added).Knows x := by
  induction added generalizing h onto with
  | nil => exact hx
  | cons id rest ih => exact ih (knows_add hx)

theorem knows_of_extend (hx : (h.extend onto added).Knows x) : x ∈ added ∨ h.Knows x := by
  induction added generalizing h onto with
  | nil => exact Or.inr hx
  | cons id rest ih =>
    rcases ih hx with hmem | hknown
    · exact Or.inl (List.mem_cons_of_mem id hmem)
    · rcases knows_of_add hknown with rfl | hknown
      · exact Or.inl List.mem_cons_self
      · exact Or.inr hknown

theorem reaches_extend (hy : h.Knows y) : (h.extend onto added).reaches x y = h.reaches x y := by
  induction added generalizing h onto with
  | nil => rfl
  | cons id rest ih => rw [extend, ih (knows_add hy), reaches_add hy]

theorem knows_added (id : α) (hparents : ∀ parent ∈ parents, h.Knows parent) : (h.add id parents).Knows id := by
  by_cases hnew : h.Knows id
  · exact knows_add hnew
  · rw [Knows, add_of_new hnew hparents]
    exact List.mem_cons_self

theorem knows_tip (honto : h.Knows onto) : (h.extend onto added).Knows (tip onto added) := by
  induction added generalizing h onto with
  | nil => exact honto
  | cons id rest ih =>
    have hadded : (h.add id [onto]).Knows id := knows_added id fun parent hparent => List.mem_singleton.mp hparent ▸ honto
    have htip : tip onto (id :: rest) = tip id rest := by
      rw [tip, List.getLast?_cons, Option.getD_some]
      rfl
    rw [extend, htip]
    exact ih hadded

end History

end Ancestry
