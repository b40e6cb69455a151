/-
  PlotLisp.Proofs.Expr.Trees
  ──────────────────────────────────────
  **EXPRESSIONS AS TREES.**

  What can be said of a tree without knowing what its atoms mean:

    • `treeInduction` — what passes from children and properties to their node
      holds of every tree;
    • `height` — how many nodes a way down meets;
    • `shape` — the tree without its properties;
    • `EveryHead` — what all atoms of a tree have in common, properties aside.
-/
import PlotLisp.Expr.Basic

namespace PlotLisp.Expr

/-! ## §1. Induction. -/

section Induction

variable {P : Expr → Prop}

mutual

/-- What holds of a node as soon as it holds of its children and of its properties
holds of every tree. -/
@[elab_as_elim]
theorem treeInduction (node : ∀ head tail props, (∀ e ∈ tail, P e) →
    (∀ m ∈ props, P m.2) → P (.node head tail props)) : ∀ e, P e
  | .node head tail props =>
      node head tail props (tailInduction node tail) (propsInduction node props)

theorem tailInduction (node : ∀ head tail props, (∀ e ∈ tail, P e) →
    (∀ m ∈ props, P m.2) → P (.node head tail props)) : ∀ (tail : List Expr), ∀ e ∈ tail, P e
  | [], _, h => absurd h (by simp)
  | first :: rest, e, h =>
      (List.mem_cons.mp h).elim (fun heq => heq ▸ treeInduction node first)
        (tailInduction node rest e)

theorem propsInduction (node : ∀ head tail props, (∀ e ∈ tail, P e) →
    (∀ m ∈ props, P m.2) → P (.node head tail props)) :
    ∀ (props : List (String × Expr)), ∀ m ∈ props, P m.2
  | [], _, h => absurd h (by simp)
  | (_, value) :: rest, m, h =>
      (List.mem_cons.mp h).elim (fun heq => heq ▸ treeInduction node value)
        (propsInduction node rest m)

end

end Induction

/-! ## §2. Height. -/

mutual

/-- The count of nodes on the longest way down; a leaf has height one. -/
def height : Expr → Nat
  | .node _ tail _ => heightAll tail + 1

/-- The greatest height in a list. -/
def heightAll : List Expr → Nat
  | [] => 0
  | e :: es => max e.height (heightAll es)

end

/-- The height of a list of expressions bounds that of each. -/
theorem height_le_heightAll {e : Expr} {es : List Expr} (h : e ∈ es) :
    e.height ≤ heightAll es := by
  induction es with
  | nil => exact absurd h List.not_mem_nil
  | cons first rest ih =>
    unfold heightAll
    rcases List.mem_cons.mp h with rfl | h
    · omega
    · have := ih h
      omega

/-- As many evaluations as a tree is high are at least one, and what is left is enough for
its children. -/
theorem exists_depth {e : Expr} {depth : Nat} (h : e.height ≤ depth) :
    ∃ d, depth = d + 1 ∧ heightAll e.tail ≤ d := by
  obtain ⟨head, tail, props⟩ := e
  have hheight : heightAll tail + 1 ≤ depth := h
  obtain ⟨d, rfl⟩ : ∃ d, depth = d + 1 := ⟨depth - 1, by omega⟩
  refine ⟨d, rfl, ?_⟩
  show heightAll tail ≤ d
  omega

/-! ## §3. Shape. -/

mutual

/-- The tree without any properties: its atoms and its shape. -/
def shape : Expr → Expr
  | .node head tail _ => .node head (shapeAll tail) []

/-- The trees of a list without any properties. -/
def shapeAll : List Expr → List Expr
  | [] => []
  | e :: es => e.shape :: shapeAll es

end

/-- A bare symbol has the shape of its name. -/
theorem shape_of_symbol? {e : Expr} {name : String} (h : e.symbol? = some name) :
    e.shape = symbol name := by
  unfold symbol? at h
  split at h
  · cases h
    rfl
  · cases h

/-! ## §4. Heads. -/

/-- Every node has such a head. -/
inductive EveryHead (P : Atom → Prop) : Expr → Prop where
  | node {head : Atom} {tail : List Expr} {props : List (String × Expr)} : P head →
      (∀ e ∈ tail, EveryHead P e) → EveryHead P (.node head tail props)

/-- The heads of a tree: its own and those of its operands; properties do not count. -/
theorem everyHead_node_iff {P : Atom → Prop} {head : Atom} {tail : List Expr}
    {props : List (String × Expr)} :
    EveryHead P (.node head tail props) ↔ P head ∧ ∀ e ∈ tail, EveryHead P e := by
  constructor
  · rintro (⟨hhead, htail⟩)
    exact ⟨hhead, htail⟩
  · rintro ⟨hhead, htail⟩
    exact .node hhead htail

theorem EveryHead.head {P : Atom → Prop} {e : Expr} (h : EveryHead P e) : P e.head := by
  cases h with
  | node hhead _ => exact hhead

end PlotLisp.Expr
