/-
  PlotLisp.Expr.Basic
  ──────────────────────────────────────
  **EXPRESSIONS.**

  A program and every value it computes are trees of one type: an atom at
  the head, an ordered list of children (the tail), and named properties
  that renderers read.

    • a leaf has no children; the head symbol `list` makes a list of the
      children, and `lambda` over a parameter list and a body a lambda value;
    • the views (`number?`, `string?`, `items?`, `lambdaParts?`, …) say what a
      node is used as;
    • properties are kept in the order of their keys, one value a key, so
      that equal property sets are equal lists.
-/
import PlotLisp.Expr.Atom

namespace PlotLisp

/-! ## §1. The type. -/

/-- A head atom, its children, and the node's properties. -/
inductive Expr where
  | node (head : Atom) (tail : List Expr) (props : List (String × Expr))
deriving Repr, Inhabited

namespace Expr

/-- The head symbol of lists. -/
def listName : String := "list"

/-- The head symbol of lambdas. -/
def lambdaName : String := "lambda"

/-- The atom at the head. -/
def head : Expr → Atom
  | .node head _ _ => head

/-- The children, in order. -/
def tail : Expr → List Expr
  | .node _ tail _ => tail

/-- The properties, in the order of their keys. -/
def props : Expr → List (String × Expr)
  | .node _ _ props => props

/-! ## §2. Construction. -/

/-- A leaf. -/
def atom (head : Atom) : Expr := .node head [] []

/-- The value that stands for nothing. -/
def none : Expr := atom .none

/-- A numeric leaf. -/
def number (x : Float) : Expr := atom (.number x)

/-- A complex leaf. -/
def complex (z : ComplexFloat) : Expr := atom (.complex z)

/-- A bare symbol. -/
def symbol (name : String) : Expr := atom (.symbol name)

/-- A string leaf. -/
def string (contents : String) : Expr := atom (.string contents)

/-- A list of values. -/
def list (items : List Expr) : Expr := .node (.symbol listName) items []

/-- A lambda value: the parameters as a list of bare symbols, then the body. -/
def lambda (params : List String) (body : Expr) : Expr :=
  .node (.symbol lambdaName) [list (params.map symbol), body] []

/-! ## §3. Views. -/

/-- Has the node no children? -/
def isLeaf (e : Expr) : Bool := e.tail.isEmpty

/-- Is it the value that stands for nothing? -/
def isNone (e : Expr) : Bool := e.head == .none && e.isLeaf

/-- The symbol at the head. -/
def headSymbol? (e : Expr) : Option String := e.head.symbol?

/-- Is the head the symbol of lists? -/
def isList (e : Expr) : Bool := e.headSymbol? == some listName

/-- Is the node shaped like a lambda: a parameter list and a body? -/
def isLambda : Expr → Bool
  | .node (.symbol name) [params, _] _ => name == lambdaName && params.isList
  | _ => false

/-- The real value of a numeric leaf. -/
def number? : Expr → Option Float
  | .node (.number x) [] _ => some x
  | _ => Option.none

/-- The value of a complex leaf. -/
def complex? : Expr → Option ComplexFloat
  | .node (.complex z) [] _ => some z
  | _ => Option.none

/-- The name of a bare symbol. -/
def symbol? : Expr → Option String
  | .node (.symbol name) [] _ => some name
  | _ => Option.none

/-- The contents of a string leaf. -/
def string? : Expr → Option String
  | .node (.string contents) [] _ => some contents
  | _ => Option.none

/-- The elements of a list. -/
def items? (e : Expr) : Option (List Expr) :=
  if e.isList then some e.tail else Option.none

/-- The parameter names and the body of a lambda whose parameters are all
bare symbols. -/
def lambdaParts? (e : Expr) : Option (List String × Expr) :=
  match e with
  | .node _ [params, body] _ =>
      if e.isLambda then (params.tail.mapM symbol?).map fun names => (names, body)
      else Option.none
  | _ => Option.none

/-- The kind of value, as type errors name it. -/
def typeName (e : Expr) : String :=
  if e.isList then "list"
  else if e.isLambda then "lambda"
  else if e.isLeaf then e.head.typeName
  else "expression"

/-! ## §4. Properties. -/

/-- Give `key` the value `value` in a list kept in the order of its keys. -/
def insertProp (key : String) (value : Expr) : List (String × Expr) → List (String × Expr)
  | [] => [(key, value)]
  | (k, v) :: rest =>
      if key < k then (key, value) :: (k, v) :: rest
      else if key = k then (key, value) :: rest
      else (k, v) :: insertProp key value rest

/-- The node with the property `key` set to `value`. -/
def setProp (e : Expr) (key : String) (value : Expr) : Expr :=
  match e with
  | .node head tail props => .node head tail (insertProp key value props)

/-- The value of the property `key`. -/
def prop? (e : Expr) (key : String) : Option Expr := e.props.lookup key

/-- Has the node a property? -/
def hasProps (e : Expr) : Bool := !e.props.isEmpty

/-- Looking a name up goes by equality of names, first pair first. -/
theorem lookup_cons_eq {α : Type} (name k : String) (v : α) (rest : List (String × α)) :
    ((k, v) :: rest).lookup name = if name = k then some v else rest.lookup name := by
  rw [List.lookup_cons]
  by_cases h : name = k
  · simp [h]
  · have hb : (name == k) = false := by simpa using h
    simp [h, hb]

/-- Insertion changes what is found under its own key only. -/
theorem lookup_insertProp (key other : String) (value : Expr) (props : List (String × Expr)) :
    (insertProp key value props).lookup other =
      if other = key then some value else props.lookup other := by
  induction props with
  | nil => exact lookup_cons_eq other key value []
  | cons first rest ih =>
    obtain ⟨k, v⟩ := first
    unfold insertProp
    by_cases hlt : key < k
    · -- in front of the first pair
      rw [if_pos hlt, lookup_cons_eq]
    · by_cases hk : key = k
      · -- in its place
        subst hk
        simp only [if_neg hlt, if_true, lookup_cons_eq]
        by_cases h : other = key <;> simp [h]
      · -- further on
        rw [if_neg hlt, if_neg hk, lookup_cons_eq, lookup_cons_eq, ih]
        by_cases h : other = k
        · subst h; simp [Ne.symm hk]
        · simp [h]

/-- A new property comes with its own value, the others stay. -/
theorem mem_insertProp {key : String} {value : Expr} {props : List (String × Expr)}
    {p : String × Expr} (h : p ∈ insertProp key value props) : p = (key, value) ∨ p ∈ props := by
  induction props with
  | nil => exact Or.inl (List.mem_singleton.mp h)
  | cons first rest ih =>
    obtain ⟨k, v⟩ := first
    unfold insertProp at h
    split at h
    · -- in front
      exact List.mem_cons.mp h
    · split at h
      · -- in the place of the first pair
        exact (List.mem_cons.mp h).imp_right (List.mem_cons_of_mem _)
      · rcases List.mem_cons.mp h with h | h
        · exact Or.inr (h ▸ List.mem_cons_self)
        · exact (ih h).imp_right (List.mem_cons_of_mem _)

/-- What holds of a value and of all values before holds of all values after. -/
theorem forall_mem_insertProp {P : Expr → Prop} {key : String} {value : Expr}
    {props : List (String × Expr)} (hvalue : P value) (hprops : ∀ p ∈ props, P p.2) :
    ∀ p ∈ insertProp key value props, P p.2 := by
  intro p hp
  rcases mem_insertProp hp with rfl | hp
  · exact hvalue
  · exact hprops p hp

/-- Setting a property changes that property only. -/
theorem prop?_setProp (e : Expr) (key other : String) (value : Expr) :
    (e.setProp key value).prop? other = if other = key then some value else e.prop? other := by
  cases e with
  | node _ _ props => exact lookup_insertProp key other value props

/-- A property leaves the head as it is. -/
@[simp] theorem head_setProp (e : Expr) (key : String) (value : Expr) :
    (e.setProp key value).head = e.head := by
  cases e; rfl

/-- A property leaves the children as they are. -/
@[simp] theorem tail_setProp (e : Expr) (key : String) (value : Expr) :
    (e.setProp key value).tail = e.tail := by
  cases e; rfl

/-! ## §5. Decidable equality. -/

mutual

/-- Decide whether two trees are the very same, properties included. -/
def decideEq : (a b : Expr) → Decidable (a = b)
  | .node h t p, .node h' t' p' =>
      match decEq h h', decideEqList t t', decideEqProps p p' with
      | isTrue hh, isTrue ht, isTrue hp => isTrue (by rw [hh, ht, hp])
      | isFalse hh, _, _ => isFalse fun e => hh (by injection e)
      | _, isFalse ht, _ => isFalse fun e => ht (by injection e)
      | _, _, isFalse hp => isFalse fun e => hp (by injection e)

/-- Decide equality of lists of trees. -/
def decideEqList : (as bs : List Expr) → Decidable (as = bs)
  | [], [] => isTrue rfl
  | [], _ :: _ => isFalse nofun
  | _ :: _, [] => isFalse nofun
  | a :: as, b :: bs =>
      match decideEq a b, decideEqList as bs with
      | isTrue ha, isTrue has => isTrue (by rw [ha, has])
      | isFalse ha, _ => isFalse fun e => ha (by injection e)
      | _, isFalse has => isFalse fun e => has (by injection e)

/-- Decide equality of property lists. -/
def decideEqProps : (as bs : List (String × Expr)) → Decidable (as = bs)
  | [], [] => isTrue rfl
  | [], _ :: _ => isFalse nofun
  | _ :: _, [] => isFalse nofun
  | (k, a) :: as, (k', b) :: bs =>
      match decEq k k', decideEq a b, decideEqProps as bs with
      | isTrue hk, isTrue ha, isTrue has => isTrue (by rw [hk, ha, has])
      | isFalse hk, _, _ => isFalse fun e => hk (by injection e with h _; injection h)
      | _, isFalse ha, _ => isFalse fun e => ha (by injection e with h _; injection h)
      | _, _, isFalse has => isFalse fun e => has (by injection e)

end

instance : DecidableEq Expr := decideEq

end Expr

end PlotLisp
