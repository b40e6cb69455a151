/-
  PlotLisp.Proofs.Json.Variants
  ──────────────────────────────────────
  **WRITING WITH EMPTY PROPERTY MAPS.**

  A node without properties is written without a map, or with an empty map after it
  was itself read with one.  `Writes` leaves that open at every node:

    • `writes_ofExpr` — what is written without empty maps is one of the values;
    • `Writes.expr?_eq` — all of them are read alike, at every depth;
    • `Writes.wellFormed` — all of them are well formed.
-/
import Mathlib.Data.List.Forall2
import PlotLisp.Proofs.Json.Codec

namespace PlotLisp.Json

variable {order : FieldOrder}

/-! ## §1. What may be written. -/

/-- The members of a property map with these values. -/
def propMembers (props : List (String × Expr)) (values : List Json) : List (Codes × Json) :=
  List.zipWith (fun m value => member m.1 value) props values

/-- The value may be written for the expression: where there are no properties, an empty map may
be shown. -/
inductive Writes (order : FieldOrder) : Expr → Json → Prop where
  | node {head : Atom} {tail : List Expr} {props : List (String × Expr)} {items values : List Json}
      {shown : Option Json} :
      List.Forall₂ (Writes order) tail items →
      List.Forall₂ (Writes order) (props.map Prod.snd) values →
      shown = some (.object (propMembers props values)) ∨ props = [] ∧ shown = none →
      Writes order (.node head tail props)
        (.object (nodeMembers order head (if tail.isEmpty then none else some (.array items)) shown))

/-- Expressions in a row may be written one by one. -/
theorem forall₂_writes {es : List Expr} (h : ∀ e ∈ es, Writes order e (ofExpr order e)) :
    List.Forall₂ (Writes order) es (es.map (ofExpr order)) := by
  rw [List.forall₂_map_right_iff, List.forall₂_same]
  exact h

/-- What holds of all that may be written for one of the expressions holds item by item. -/
theorem forall₂_of_writes {R : Expr → Json → Prop} {es : List Expr} {js : List Json}
    (hR : ∀ e ∈ es, ∀ {j}, Writes order e j → R e j) (h : List.Forall₂ (Writes order) es js) :
    List.Forall₂ R es js := by
  induction h with
  | nil => exact .nil
  | cons hwrites _ ih =>
    exact .cons (hR _ List.mem_cons_self hwrites) (ih fun e he => hR e (List.mem_cons_of_mem _ he))

/-- An expression may be written without any empty map. -/
theorem writes_ofExpr (e : Expr) : Writes order e (ofExpr order e) := by
  induction e using Expr.treeInduction with
  | node head tail props ihtail ihprops =>
    rw [ofExpr_node, tailField, ofExprs_eq_map]
    refine .node (forall₂_writes ihtail) (forall₂_writes (List.forall_mem_map.mpr ihprops)) ?_
    cases props with
    | nil => exact .inr ⟨rfl, rfl⟩
    | cons m rest =>
      left
      rw [propsField, ofProps_eq_map, propMembers]
      simp [List.zipWith_map_right, List.zipWith_self]

/-! ## §2. How it is read. -/

section Reading

variable {read : Json → Option Expr}

/-- A reader that takes the items for what is written takes them all for it. -/
theorem tailOf?_items {tail : List Expr} {items : List Json}
    (h : List.Forall₂ (fun e j => read j = read (ofExpr order e)) tail items) :
    tailOf? (some read) (if tail.isEmpty then none else some (.array items))
      = tailOf? (some read) (tailField order tail) := by
  have hitems : items.mapM read = (ofExprs order tail).mapM read := by
    induction h with
    | nil => rfl
    | cons hread _ ih => rw [ofExprs, List.mapM_cons, List.mapM_cons, hread, ih]
  cases tail with
  | nil => rfl
  | cons e rest => exact hitems

theorem keyed?_propMembers (props : List (String × Expr)) (values : List Json) :
    keyed? (propMembers props values)
      = some (List.zipWith (fun m value => (m.1, value)) props values) := by
  induction props generalizing values with
  | nil => rfl
  | cons m rest ih =>
    cases values with
    | nil => rfl
    | cons value values =>
      show keyed? (member m.1 value :: propMembers rest values) = _
      rw [keyed?_cons, ih]
      rfl

/-- So does it with the values of properties. -/
theorem mapM_property?_eq {props : List (String × Expr)} {values : List Json}
    (h : List.Forall₂ (fun e j => read j = read (ofExpr order e)) (props.map Prod.snd) values) :
    (List.zipWith (fun m value => (m.1, value)) props values).mapM (property? read)
      = (props.map fun m => (m.1, ofExpr order m.2)).mapM (property? read) := by
  induction props generalizing values with
  | nil => rfl
  | cons m rest ih =>
    cases h with
    | @cons _ value _ values hread hrest =>
      rw [List.zipWith_cons_cons, List.map_cons, List.mapM_cons, List.mapM_cons, ih hrest]
      simp only [property?, hread]

/-- An empty map is read as a missing one. -/
theorem propsOf?_shown {props : List (String × Expr)} {values : List Json} {shown : Option Json}
    (h : List.Forall₂ (fun e j => read j = read (ofExpr order e)) (props.map Prod.snd) values)
    (hshown : shown = some (.object (propMembers props values)) ∨ props = [] ∧ shown = none) :
    propsOf? (some read) shown = propsOf? (some read) (propsField order props) := by
  rcases hshown with rfl | ⟨rfl, rfl⟩
  · rw [propsOf?_object, keyed?_propMembers, Option.bind_some, mapM_property?_eq h]
    cases props with
    | nil => rfl
    | cons m rest =>
      have hfield : propsField order (m :: rest) = some (.object (ofProps order (m :: rest))) := rfl
      rw [hfield, propsOf?_object, keyed?_ofProps, Option.bind_some]
  · rfl

end Reading

/-- **WHATEVER IS WRITTEN FOR AN EXPRESSION IS READ ALIKE**, with and without empty maps. -/
theorem Writes.expr?_eq {e : Expr} {j : Json} (h : Writes order e j) (depth : Nat) :
    expr? depth j = expr? depth (ofExpr order e) := by
  induction e using Expr.treeInduction generalizing j depth with
  | node head tail props ihtail ihprops =>
    obtain ⟨htail, hprops, hshown⟩ := h
    rw [ofExpr_node]
    match depth with
    | 0 => rfl
    | 1 =>
      -- the brackets of the head are too many already
      rw [expr?_succ, expr?_succ, fields?_nodeMembers, fields?_nodeMembers]
      rfl
    | depth + 2 =>
      have hitems := forall₂_of_writes (fun e he {j} hj => ihtail e he hj depth) htail
      have hvalues := forall₂_of_writes (R := fun e j => expr? depth j = expr? depth (ofExpr order e))
        (List.forall_mem_map.mpr fun m hm {j} hj => ihprops m hm hj depth) hprops
      rw [expr?_succ, expr?_succ, fields?_nodeMembers, fields?_nodeMembers]
      show (atom? (depth + 1) (ofAtom head)).bind _ = (atom? (depth + 1) (ofAtom head)).bind _
      simp only [reader?, tailOf?_items hitems, propsOf?_shown hvalues hshown]

/-! ## §3. Well-formedness. -/

theorem forall_mem_of_writes {P : Json → Prop} {es : List Expr} {js : List Json}
    (hP : ∀ e ∈ es, ∀ {j}, Writes order e j → P j) (h : List.Forall₂ (Writes order) es js) :
    ∀ j ∈ js, P j := by
  induction h with
  | nil => simp
  | cons hwrites _ ih =>
    obtain ⟨hfirst, hrest⟩ := List.forall_mem_cons.mp hP
    exact List.forall_mem_cons.mpr ⟨hfirst hwrites, ih hrest⟩

/-- The keys of a property map are texts. -/
theorem wellFormed_propMembers {props : List (String × Expr)} {values : List Json}
    (h : ∀ j ∈ values, WellFormed j) : WellFormed (.object (propMembers props values)) := by
  have hmembers : ∀ m ∈ propMembers props values, Codes.Valid m.1 ∧ WellFormed m.2 := by
    intro m hm
    obtain ⟨i, hi, rfl⟩ := List.mem_iff_getElem.mp hm
    simp only [propMembers, List.getElem_zipWith, member]
    exact ⟨valid_ofString _, h _ (List.getElem_mem _)⟩
  exact .object (fun m hm => (hmembers m hm).1) fun m hm => (hmembers m hm).2

/-- **WHATEVER IS WRITTEN FOR AN EXPRESSION IS WELL FORMED.** -/
theorem Writes.wellFormed {e : Expr} {j : Json} (h : Writes order e j) : WellFormed j := by
  induction e using Expr.treeInduction generalizing j with
  | node head tail props ihtail ihprops =>
    cases h with
    | @node _ _ _ items values shown htail hprops hshown =>
      have hitems := forall_mem_of_writes ihtail htail
      have hvalues := forall_mem_of_writes (List.forall_mem_map.mpr ihprops) hprops
      have hmembers : ∀ m ∈ nodeMembers order head
          (if tail.isEmpty then none else some (.array items)) shown,
          Codes.Valid m.1 ∧ WellFormed m.2 := by
        intro m hm
        rcases mem_nodeMembers.mp hm with rfl | ⟨j, hj, rfl⟩ | ⟨j, hj, rfl⟩
        · exact ⟨valid_ofString _, wellFormed_ofAtom head⟩
        · obtain ⟨-, rfl⟩ : ¬ _ ∧ Json.array items = j := by simpa using hj
          exact ⟨valid_ofString _, .array hitems⟩
        · obtain rfl : Json.object (propMembers props values) = j := by
            rcases hshown with rfl | ⟨-, rfl⟩
            · simpa using hj
            · cases hj
          exact ⟨valid_ofString _, wellFormed_propMembers hvalues⟩
      exact .object (fun m hm => (hmembers m hm).1) fun m hm => (hmembers m hm).2

end PlotLisp.Json
