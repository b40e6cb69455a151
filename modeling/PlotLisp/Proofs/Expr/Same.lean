/-
  PlotLisp.Proofs.Expr.Same
  ──────────────────────────────────────
  **WHAT SAMENESS OF VALUES IS.**

  Sameness compares numbers up to one `epsilon`, so it is no equality.  What it
  keeps of one, whatever the trees:

    • `same_comm` — it is symmetric;
    • `same_shape` — it never looks at a property, at any depth;
    • `same_self_iff` — a tree is the same as itself exactly if none of its
      atoms holds an undefined number.
-/
import Mathlib.Data.List.Forall2
import PlotLisp.Expr.Same
import PlotLisp.Proofs.Expr.Trees
import PlotLisp.Proofs.Number.Closeness

namespace PlotLisp

/-! ## §1. Atoms. -/

namespace Atom

/-- No number in the atom is undefined. -/
def IsDefined : Atom → Prop
  | .number x => x.isNaN = false
  | .complex z => z.re.isNaN = false ∧ z.im.isNaN = false
  | _ => True

theorem same_comm (a b : Atom) : a.same b = b.same a := by
  cases a <;> cases b <;> try rfl
  case number.number x y => exact close_comm x y
  case complex.complex z w =>
    show (close z.re w.re && close z.im w.im) = (close w.re z.re && close w.im z.im)
    rw [close_comm z.re, close_comm z.im]
  case symbol.symbol a b => exact BEq.comm
  case string.string a b => exact BEq.comm

/-- An atom is the same as itself unless it holds a NaN. -/
theorem same_self_iff (a : Atom) : a.same a = true ↔ a.IsDefined := by
  cases a with
  | none => exact Iff.of_eq (eq_self _)
  | number x =>
    show close x x = true ↔ x.isNaN = false
    rw [close_self, Bool.not_eq_true']
  | complex z =>
    show (close z.re z.re && close z.im z.im) = true ↔ z.re.isNaN = false ∧ z.im.isNaN = false
    rw [close_self, close_self, Bool.and_eq_true, Bool.not_eq_true', Bool.not_eq_true']
  | symbol name => simp [same, IsDefined]
  | string contents => simp [same, IsDefined]

end Atom

/-! ## §2. Trees. -/

namespace Expr

mutual

theorem same_comm : ∀ a b : Expr, a.same b = b.same a
  | .node head tail _, .node head' tail' _ => by
    unfold same
    rw [Atom.same_comm head head', sameAll_comm tail tail']

theorem sameAll_comm : ∀ as bs : List Expr, sameAll as bs = sameAll bs as
  | [], [] => rfl
  | [], _ :: _ => rfl
  | _ :: _, [] => rfl
  | a :: as, b :: bs => by
    unfold sameAll
    rw [same_comm a b, sameAll_comm as bs]

end

mutual

/-- Properties play no part. -/
theorem same_shape : ∀ a b : Expr, a.shape.same b.shape = a.same b
  | .node _ tail _, .node _ tail' _ => by
    unfold shape same
    rw [sameAll_shapeAll tail tail']

/-- The same for the operands, one by one. -/
theorem sameAll_shapeAll : ∀ as bs : List Expr,
    sameAll (shapeAll as) (shapeAll bs) = sameAll as bs
  | [], [] => rfl
  | [], _ :: _ => rfl
  | _ :: _, [] => rfl
  | a :: as, b :: bs => by
    unfold shapeAll sameAll
    rw [same_shape a b, sameAll_shapeAll as bs]

end

/-- Children are compared in order, one with one. -/
theorem sameAll_iff (as bs : List Expr) :
    sameAll as bs = true ↔ List.Forall₂ (fun a b => a.same b = true) as bs := by
  induction as generalizing bs with
  | nil =>
    cases bs with
    | nil => exact iff_of_true rfl .nil
    | cons b bs => exact iff_of_false Bool.false_ne_true (by simp)
  | cons a as ih =>
    cases bs with
    | nil => exact iff_of_false Bool.false_ne_true (by simp)
    | cons b bs =>
      unfold sameAll
      rw [Bool.and_eq_true, List.forall₂_cons, ih]

/-- **A tree is the same as itself unless a number in it is undefined.** -/
theorem same_self_iff (a : Expr) : a.same a = true ↔ a.EveryHead Atom.IsDefined := by
  induction a using treeInduction with
  | node head tail props ih _ =>
    unfold same
    rw [Bool.and_eq_true, Atom.same_self_iff, sameAll_iff, List.forall₂_same, everyHead_node_iff]
    exact and_congr_right fun _ => forall₂_congr ih

end Expr

/-- **SAMENESS IS SYMMETRIC, BLIND TO PROPERTIES, AND REFLEXIVE WITHOUT NaN.**  Which tree
comes first makes no difference, and neither does any property of any node of either tree.
A tree is the same as itself exactly if no number and no complex part among its atoms,
properties aside, is undefined; so infinities are the same as themselves, in complex numbers
too. -/
theorem sameness_is_symmetric_blind_and_reflexive (a b : Expr) :
    (a.same b = true ↔ b.same a = true)
    ∧ (∀ a' b' : Expr, a'.shape = a.shape → b'.shape = b.shape → a'.same b' = a.same b)
    ∧ (a.same a = true ↔ a.EveryHead Atom.IsDefined)
    ∧ ∀ x : Float, x.isInf = true → (Expr.number x).same (.number x) = true
        ∧ ∀ y : Float, y.isNaN = false → (Expr.complex ⟨x, y⟩).same (.complex ⟨x, y⟩) = true
            ∧ (Expr.complex ⟨y, x⟩).same (.complex ⟨y, x⟩) = true := by
  refine ⟨by rw [Expr.same_comm], ?_, a.same_self_iff, ?_⟩
  · -- both comparisons are one of shapes
    intro a' b' ha hb
    rw [← Expr.same_shape, ha, hb, Expr.same_shape]
  · -- an infinity is defined, and that is all that counts
    intro x hinf
    have hx : x.isNaN = false := Binary64.isNaN_of_isInf hinf
    have hleaf {head : Atom} (h : head.IsDefined) :
        (Expr.atom head).same (.atom head) = true :=
      (Expr.same_self_iff _).mpr (.node h (List.forall_mem_nil _))
    exact ⟨hleaf hx, fun y hy => ⟨hleaf ⟨hx, hy⟩, hleaf ⟨hy, hx⟩⟩⟩

end PlotLisp
