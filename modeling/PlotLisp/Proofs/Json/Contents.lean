/-
  PlotLisp.Proofs.Json.Contents
  ──────────────────────────────────────
  **WHAT AN EXPRESSION HOLDS.**

  The facts about expressions that a round trip through JSON depends on:

    • `numbers` — all numbers of a tree, complex parts and properties
      included; `AllFinite` and `ReadsBack` are about them;
    • `Keyed` — every node's properties are a map, in the order of its keys;
    • `Lists` — a tree that has the same atoms, children and properties at every
      node, the properties in any order.  The tree itself is recovered by
      putting them into the order of their keys (`canonical`).
-/
import Mathlib.Data.List.Perm.Basic
import PlotLisp.Json.ExprCodec
import PlotLisp.Proofs.Expr.Trees

namespace PlotLisp

/-! ## §1. The numbers of an expression. -/

/-- The numbers of an atom. -/
def Atom.numbers : Atom → List Float
  | .number x => [x]
  | .complex z => [z.re, z.im]
  | _ => []

namespace Expr

mutual

/-- The numbers of a tree: its head's, its children's, its properties'. -/
def numbers : Expr → List Float
  | .node head tail props => head.numbers ++ (tailNumbers tail ++ propNumbers props)

/-- The numbers of children. -/
def tailNumbers : List Expr → List Float
  | [] => []
  | e :: rest => numbers e ++ tailNumbers rest

/-- The numbers of properties. -/
def propNumbers : List (String × Expr) → List Float
  | [] => []
  | (_, e) :: rest => numbers e ++ propNumbers rest

end

theorem mem_tailNumbers {x : Float} {tail : List Expr} :
    x ∈ tailNumbers tail ↔ ∃ e ∈ tail, x ∈ e.numbers := by
  induction tail with
  | nil => simp [tailNumbers]
  | cons e rest ih => simp [tailNumbers, ih]

theorem mem_propNumbers {x : Float} {props : List (String × Expr)} :
    x ∈ propNumbers props ↔ ∃ m ∈ props, x ∈ m.2.numbers := by
  induction props with
  | nil => simp [propNumbers]
  | cons m rest ih => simp [propNumbers, ih]

/-- What holds of all numbers of a node. -/
theorem forall_mem_numbers {P : Float → Prop} {head : Atom} {tail : List Expr}
    {props : List (String × Expr)} :
    (∀ x ∈ (Expr.node head tail props).numbers, P x)
      ↔ (∀ x ∈ head.numbers, P x) ∧ (∀ e ∈ tail, ∀ x ∈ e.numbers, P x)
        ∧ ∀ m ∈ props, ∀ x ∈ m.2.numbers, P x := by
  simp only [numbers, List.forall_mem_append, mem_tailNumbers, mem_propNumbers]
  constructor
  · rintro ⟨hhead, htail, hprops⟩
    exact ⟨hhead, fun e he x hx => htail x ⟨e, he, hx⟩, fun m hm x hx => hprops x ⟨m, hm, hx⟩⟩
  · rintro ⟨hhead, htail, hprops⟩
    exact ⟨hhead, fun x ⟨e, he, hx⟩ => htail e he x hx, fun x ⟨m, hm, hx⟩ => hprops m hm x hx⟩

/-- No number of the tree is an infinity or NaN. -/
def AllFinite (e : Expr) : Prop := ∀ x ∈ e.numbers, x.isFinite = true

/-- The numerals that are written for the numbers of the tree are read as those
numbers. -/
def ReadsBack (e : Expr) : Prop :=
  ∀ x ∈ e.numbers, ∀ n, Numeral.ofFloat? x = some n → n.toFloat? = some x

theorem allFinite_node {head : Atom} {tail : List Expr} {props : List (String × Expr)} :
    (Expr.node head tail props).AllFinite
      ↔ (∀ x ∈ head.numbers, x.isFinite = true) ∧ (∀ e ∈ tail, e.AllFinite)
        ∧ ∀ m ∈ props, m.2.AllFinite := forall_mem_numbers

theorem readsBack_node {head : Atom} {tail : List Expr} {props : List (String × Expr)} :
    (Expr.node head tail props).ReadsBack
      ↔ (∀ x ∈ head.numbers, ∀ n, Numeral.ofFloat? x = some n → n.toFloat? = some x)
        ∧ (∀ e ∈ tail, e.ReadsBack) ∧ ∀ m ∈ props, m.2.ReadsBack := forall_mem_numbers

/-! ## §2. Properties in the order of their keys. -/

/-- The keys rise from pair to pair, so that none occurs twice. -/
def Ascending {α : Type} (props : List (String × α)) : Prop := (props.map Prod.fst).Pairwise (· < ·)

/-- The properties of every node are a map, kept in the order of its keys. -/
inductive Keyed : Expr → Prop where
  | node {head : Atom} {tail : List Expr} {props : List (String × Expr)}
      (htail : ∀ e ∈ tail, Keyed e) (horder : Ascending props)
      (hvalues : ∀ m ∈ props, Keyed m.2) : Keyed (.node head tail props)

/-- Setting a property keeps the order. -/
theorem Ascending.insertProp {props : List (String × Expr)} (h : Ascending props) (key : String)
    (value : Expr) : Ascending (Expr.insertProp key value props) := by
  induction props with
  | nil => simp [Ascending, Expr.insertProp]
  | cons first rest ih =>
    obtain ⟨k, v⟩ := first
    obtain ⟨hfirst, hrest⟩ := List.pairwise_cons.mp h
    unfold Expr.insertProp
    split_ifs with hlt heq
    · -- in front of the first pair
      refine List.pairwise_cons.mpr ⟨fun k' hk' => ?_, h⟩
      rcases List.mem_cons.mp hk' with rfl | hk'
      · exact hlt
      · exact String.lt_trans hlt (hfirst k' hk')
    · -- in its place
      subst heq
      exact List.pairwise_cons.mpr ⟨hfirst, hrest⟩
    · -- further on
      refine List.pairwise_cons.mpr ⟨fun k' hk' => ?_, ih hrest⟩
      obtain ⟨m, hm, rfl⟩ := List.mem_map.mp hk'
      rcases mem_insertProp hm with rfl | hm
      · exact Decidable.byContradiction fun hk =>
          heq (String.le_antisymm (String.not_lt.mp hk) (String.not_lt.mp hlt))
      · exact hfirst m.1 (List.mem_map_of_mem hm)

/-- A property above all others goes to the end. -/
theorem insertProp_of_forall_lt {key : String} {value : Expr} {props : List (String × Expr)}
    (h : ∀ m ∈ props, m.1 < key) : insertProp key value props = props ++ [(key, value)] := by
  induction props with
  | nil => rfl
  | cons first rest ih =>
    obtain ⟨k, v⟩ := first
    have hk : k < key := h (k, v) (by simp)
    have hne : key ≠ k := fun heq => String.lt_irrefl k (heq ▸ hk)
    rw [insertProp, if_neg (String.lt_asymm hk), if_neg hne, ih fun m hm => h m (by simp [hm]),
      List.cons_append]

/-- Properties above one another are distinct. -/
theorem Ascending.nodup {α : Type} {props : List (String × α)} (h : Ascending props) :
    (props.map Prod.fst).Nodup :=
  List.Pairwise.imp (fun {a b} (hlt : a < b) (heq : a = b) => String.lt_irrefl b (heq ▸ hlt)) h

/-- A property under a new key is one more. -/
theorem perm_insertProp {key : String} {props : List (String × Expr)}
    (h : key ∉ props.map Prod.fst) (value : Expr) :
    (insertProp key value props).Perm ((key, value) :: props) := by
  induction props with
  | nil => exact .refl _
  | cons first rest ih =>
    obtain ⟨k, v⟩ := first
    have hne : key ≠ k := fun heq => h (by simp [heq])
    have hrest : key ∉ rest.map Prod.fst := fun hk => h (List.mem_cons_of_mem k hk)
    unfold insertProp
    split_ifs with hlt
    · exact .refl _
    · exact ((ih hrest).cons (k, v)).trans (.swap _ _ _)

/-! ## §3. Putting properties in order. -/

/-- The properties `before`, and those of `given` set after them. -/
def insertAll (before given : List (String × Expr)) : List (String × Expr) :=
  given.foldl (fun props (key, value) => insertProp key value props) before

theorem insertAll_cons (before : List (String × Expr)) (key : String) (value : Expr)
    (rest : List (String × Expr)) :
    insertAll before ((key, value) :: rest) = insertAll (insertProp key value before) rest := rfl

theorem Ascending.insertAll {before : List (String × Expr)} (h : Ascending before)
    (given : List (String × Expr)) : Ascending (Expr.insertAll before given) := by
  induction given generalizing before with
  | nil => exact h
  | cons m rest ih => exact ih (h.insertProp m.1 m.2)

theorem mem_insertAll {before given : List (String × Expr)} {m : String × Expr}
    (h : m ∈ insertAll before given) : m ∈ before ∨ m ∈ given := by
  induction given generalizing before with
  | nil => exact .inl h
  | cons first rest ih =>
    rcases ih h with hm | hm
    · rcases mem_insertProp hm with rfl | hm
      · exact .inr (List.mem_cons_self ..)
      · exact .inl hm
    · exact .inr (List.mem_cons_of_mem first hm)

/-- Properties that rise above those before them go to the end. -/
theorem insertAll_of_ascending {before given : List (String × Expr)}
    (h : Ascending (before ++ given)) : insertAll before given = before ++ given := by
  induction given generalizing before with
  | nil => exact (List.append_nil before).symm
  | cons m rest ih =>
    obtain ⟨key, value⟩ := m
    have hlast : ∀ m ∈ before, m.1 < key := by
      intro m hm
      rw [Ascending, List.map_append, List.pairwise_append] at h
      exact h.2.2 m.1 (List.mem_map_of_mem hm) key (by simp)
    rw [insertAll_cons, insertProp_of_forall_lt hlast, ih (by simpa using h), List.append_assoc,
      List.singleton_append]

/-- Of distinct properties, none is lost. -/
theorem perm_insertAll {before given : List (String × Expr)}
    (h : ((before ++ given).map Prod.fst).Nodup) :
    (insertAll before given).Perm (before ++ given) := by
  induction given generalizing before with
  | nil => simp [insertAll]
  | cons m rest ih =>
    obtain ⟨key, value⟩ := m
    have hmiddle : (before ++ (key, value) :: rest).Perm ((key, value) :: (before ++ rest)) :=
      List.perm_middle
    have hnodup := ((hmiddle.map Prod.fst).nodup_iff).mp h
    have hnew : key ∉ before.map Prod.fst := by
      rw [List.map_cons, List.nodup_cons, List.map_append, List.mem_append] at hnodup
      exact fun hk => hnodup.1 (.inl hk)
    have hinsert := (perm_insertProp hnew value).append_right rest
    have hrest := ih (((hinsert.map Prod.fst).nodup_iff).mpr hnodup)
    exact hrest.trans (hinsert.trans hmiddle.symm)

open Json (propsOf)

theorem propsOf_eq (given : List (String × Expr)) : propsOf given = insertAll [] given := rfl

/-- Properties are put in order, and each of them was given. -/
theorem ascending_propsOf (given : List (String × Expr)) :
    Ascending (propsOf given) ∧ ∀ m ∈ propsOf given, m ∈ given := by
  have hnil : Ascending ([] : List (String × Expr)) := List.Pairwise.nil
  exact ⟨hnil.insertAll given, fun m hm => (mem_insertAll hm).resolve_left (List.not_mem_nil)⟩

/-- Properties in order stay as they are. -/
theorem propsOf_of_ascending {props : List (String × Expr)} (h : Ascending props) :
    propsOf props = props :=
  insertAll_of_ascending (show Ascending ([] ++ props) from h)

theorem perm_propsOf {given : List (String × Expr)} (h : (given.map Prod.fst).Nodup) :
    (propsOf given).Perm given := by
  rw [propsOf_eq]
  exact perm_insertAll h

/-! ## §4. Properties in any order. -/

mutual

/-- The tree with every node's properties in the order of their keys. -/
def canonical : Expr → Expr
  | .node head tail props => .node head (canonicalTail tail) (propsOf (canonicalProps props))

/-- Children, each with its properties in order. -/
def canonicalTail : List Expr → List Expr
  | [] => []
  | e :: rest => canonical e :: canonicalTail rest

/-- Properties, the properties of each in order. -/
def canonicalProps : List (String × Expr) → List (String × Expr)
  | [] => []
  | (key, e) :: rest => (key, canonical e) :: canonicalProps rest

end

theorem canonical_node (head : Atom) (tail : List Expr) (props : List (String × Expr)) :
    (Expr.node head tail props).canonical
      = .node head (tail.map canonical) (propsOf (props.map fun m => (m.1, m.2.canonical))) := by
  have htail : ∀ tail : List Expr, canonicalTail tail = tail.map canonical := by
    intro tail
    induction tail with
    | nil => rfl
    | cons e rest ih => rw [canonicalTail, ih, List.map_cons]
  have hprops : ∀ props : List (String × Expr),
      canonicalProps props = props.map fun m => (m.1, m.2.canonical) := by
    intro props
    induction props with
    | nil => rfl
    | cons m rest ih => rw [canonicalProps, ih, List.map_cons]
  rw [canonical, htail, hprops]

/-- Every node's properties have keys of their own. -/
inductive Distinct : Expr → Prop where
  | node {head : Atom} {tail : List Expr} {props : List (String × Expr)}
      (htail : ∀ e ∈ tail, Distinct e) (hkeys : (props.map Prod.fst).Nodup)
      (hvalues : ∀ m ∈ props, Distinct m.2) : Distinct (.node head tail props)

/-- The tree `listing` is the tree `e`, but for the order in which its nodes list their
properties. -/
structure Lists (listing e : Expr) : Prop where
  distinct : listing.Distinct
  canonical_eq : listing.canonical = e

theorem Keyed.canonical_eq {e : Expr} (h : e.Keyed) : e.canonical = e := by
  induction h with
  | @node head tail props htail horder hvalues ihtail ihvalues =>
    have htails : tail.map canonical = tail := (List.map_congr_left ihtail).trans (List.map_id' tail)
    have hprops : (props.map fun m => (m.1, m.2.canonical)) = props :=
      (List.map_congr_left fun m hm => by rw [ihvalues m hm]).trans (List.map_id' props)
    rw [canonical_node, htails, hprops, propsOf_of_ascending horder]

theorem Keyed.distinct {e : Expr} (h : e.Keyed) : e.Distinct := by
  induction h with
  | node htail horder hvalues ihtail ihvalues => exact .node ihtail horder.nodup ihvalues

/-- The order of the keys is one order. -/
theorem Keyed.lists_self {e : Expr} (h : e.Keyed) : e.Lists e := ⟨h.distinct, h.canonical_eq⟩

/-- The properties of a canonical node are those of the listing. -/
theorem perm_canonicalProps {props : List (String × Expr)} (h : (props.map Prod.fst).Nodup) :
    (propsOf (props.map fun m => (m.1, m.2.canonical))).Perm
      (props.map fun m => (m.1, m.2.canonical)) := by
  refine perm_propsOf ?_
  rw [List.map_map]
  exact h

/-- The order of properties does not matter for what holds of all numbers. -/
theorem forall_mem_numbers_canonical {P : Float → Prop} {e : Expr} (h : e.Distinct) :
    (∀ x ∈ e.canonical.numbers, P x) ↔ ∀ x ∈ e.numbers, P x := by
  induction h with
  | @node head tail props htail hkeys hvalues ihtail ihvalues =>
    rw [canonical_node, forall_mem_numbers, forall_mem_numbers, List.forall_mem_map]
    -- no property is lost when they are put in order
    have hprops : (∀ m ∈ propsOf (props.map fun m => (m.1, m.2.canonical)), ∀ x ∈ m.2.numbers, P x)
        ↔ ∀ m ∈ props, ∀ x ∈ m.2.canonical.numbers, P x := by
      simp only [(perm_canonicalProps hkeys).mem_iff, List.forall_mem_map]
    rw [hprops]
    refine and_congr_right fun _ => and_congr ?_ ?_
    · exact forall₂_congr ihtail
    · exact forall₂_congr ihvalues

end Expr

end PlotLisp
