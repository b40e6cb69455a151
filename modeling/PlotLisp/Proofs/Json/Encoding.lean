/-
  PlotLisp.Proofs.Json.Encoding
  ──────────────────────────────────────
  **WHAT IS WRITTEN FOR AN EXPRESSION.**

  The JSON value of an expression, as far as reading it back depends on it:

    • how deep its brackets stand inside one another (`nesting`), field by
      field; the order of fields and properties does not matter;
    • that what is written for its atoms is well formed (`wellFormed_ofAtom`).
-/
import PlotLisp.Proofs.Json.Contents
import PlotLisp.Proofs.Json.Reading

namespace PlotLisp

/-! ## §1. Nesting. -/

namespace Json

mutual

/-- How many brackets stand inside one another. -/
def nesting : Json → Nat
  | .array items => itemNesting items + 1
  | .object members => memberNesting members + 1
  | _ => 0

/-- The deepest nesting of items. -/
def itemNesting : List Json → Nat
  | [] => 0
  | item :: rest => max (nesting item) (itemNesting rest)

/-- The deepest nesting of members. -/
def memberNesting : List (Codes × Json) → Nat
  | [] => 0
  | (_, value) :: rest => max (nesting value) (memberNesting rest)

end

/-- The nesting of a list is that of its deepest item. -/
theorem itemNesting_le {items : List Json} {depth : Nat} :
    itemNesting items ≤ depth ↔ ∀ j ∈ items, j.nesting ≤ depth := by
  induction items with
  | nil => simp [itemNesting]
  | cons item rest ih => simp [itemNesting, ih]

/-- The nesting of members is that of the deepest one. -/
theorem memberNesting_le {members : List (Codes × Json)} {depth : Nat} :
    memberNesting members ≤ depth ↔ ∀ m ∈ members, m.2.nesting ≤ depth := by
  induction members with
  | nil => simp [memberNesting]
  | cons m rest ih => simp [memberNesting, ih]

/-- An array nests by one more than its items. -/
theorem nesting_array_le {items : List Json} {depth : Nat} :
    (Json.array items).nesting ≤ depth + 1 ↔ ∀ j ∈ items, j.nesting ≤ depth := by
  rw [nesting, Nat.add_le_add_iff_right, itemNesting_le]

/-- An object nests by one more than its members. -/
theorem nesting_object_le {members : List (Codes × Json)} {depth : Nat} :
    (Json.object members).nesting ≤ depth + 1 ↔ ∀ m ∈ members, m.2.nesting ≤ depth := by
  rw [nesting, Nat.add_le_add_iff_right, memberNesting_le]

/-! ## §2. The fields that are written. -/

/-- Children are written one by one. -/
theorem ofExprs_eq_map (order : FieldOrder) (es : List Expr) :
    ofExprs order es = es.map (ofExpr order) := by
  induction es with
  | nil => simp [ofExprs]
  | cons e rest ih => simp [ofExprs, ih]

/-- Properties are written one by one, under their keys. -/
theorem ofProps_eq_map (order : FieldOrder) (props : List (String × Expr)) :
    ofProps order props = props.map fun m => member m.1 (ofExpr order m.2) := by
  induction props with
  | nil => simp [ofProps]
  | cons m rest ih => simp [ofProps, ih]

/-- The tail of a node as it is written: not at all if it is empty. -/
def tailField (order : FieldOrder) (tail : List Expr) : Option Json :=
  if tail.isEmpty then none else some (.array (ofExprs order tail))

/-- The properties of a node as they are written: not at all if there are none. -/
def propsField (order : FieldOrder) (props : List (String × Expr)) : Option Json :=
  if props.isEmpty then none else some (.object (ofProps order props))

/-- The members of a written node, in either order. -/
def nodeMembers (order : FieldOrder) (head : Atom) (tail props : Option Json) :
    List (Codes × Json) :=
  let head := [member "head" (ofAtom head)]
  let tail := (tail.map (member "tail")).toList
  let props := (props.map (member "properties")).toList
  match order with
  | .declared => head ++ tail ++ props
  | .sorted => head ++ props ++ tail

/-- A node is written with the fields that are not empty. -/
theorem ofExpr_node (order : FieldOrder) (head : Atom) (tail : List Expr)
    (props : List (String × Expr)) :
    ofExpr order (.node head tail props)
      = .object (nodeMembers order head (tailField order tail) (propsField order props)) := by
  cases tail <;> cases props <;> cases order <;> rfl

/-- Both orders have the same members. -/
theorem mem_nodeMembers {order : FieldOrder} {head : Atom} {tail props : Option Json}
    {m : Codes × Json} :
    m ∈ nodeMembers order head tail props
      ↔ m = member "head" (ofAtom head) ∨ (∃ j ∈ tail, m = member "tail" j)
        ∨ ∃ j ∈ props, m = member "properties" j := by
  cases order with
  | declared => simp [nodeMembers, eq_comm]
  | sorted => simp [nodeMembers, eq_comm, or_comm]

/-- A tail opens a bracket of its own around its nodes. -/
theorem nesting_tailField_le (order : FieldOrder) {tail : List Expr} {depth : Nat} :
    (∀ j ∈ tailField order tail, j.nesting ≤ depth)
      ↔ ∀ e ∈ tail, (ofExpr order e).nesting < depth := by
  cases tail with
  | nil => simp [tailField]
  | cons e rest =>
    have hfield : tailField order (e :: rest) = some (.array ((e :: rest).map (ofExpr order))) := by
      rw [← ofExprs_eq_map]
      rfl
    rw [hfield]
    cases depth with
    | zero =>
      exact ⟨fun h => absurd (h _ rfl) (by simp [nesting]),
        fun h => absurd (h e (by simp)) (by simp)⟩
    | succ depth =>
      simp only [Option.mem_def, Option.some.injEq, forall_eq', nesting_array_le, List.forall_mem_map,
        Nat.lt_succ_iff]

/-- So do properties. -/
theorem nesting_propsField_le (order : FieldOrder) {props : List (String × Expr)} {depth : Nat} :
    (∀ j ∈ propsField order props, j.nesting ≤ depth)
      ↔ ∀ m ∈ props, (ofExpr order m.2).nesting < depth := by
  cases props with
  | nil => simp [propsField]
  | cons m rest =>
    have hfield : propsField order (m :: rest)
        = some (.object ((m :: rest).map fun m => member m.1 (ofExpr order m.2))) := by
      rw [← ofProps_eq_map]
      rfl
    rw [hfield]
    cases depth with
    | zero =>
      exact ⟨fun h => absurd (h _ rfl) (by simp [nesting]),
        fun h => absurd (h m (by simp)) (by simp)⟩
    | succ depth =>
      simp only [Option.mem_def, Option.some.injEq, forall_eq', nesting_object_le, List.forall_mem_map,
        Nat.lt_succ_iff, member]

theorem nesting_ofExpr_le {order : FieldOrder} {head : Atom} {tail : List Expr}
    {props : List (String × Expr)} {depth : Nat} :
    (ofExpr order (.node head tail props)).nesting ≤ depth + 1
      ↔ (ofAtom head).nesting ≤ depth ∧ (∀ e ∈ tail, (ofExpr order e).nesting < depth)
        ∧ ∀ m ∈ props, (ofExpr order m.2).nesting < depth := by
  rw [ofExpr_node, nesting_object_le, ← nesting_tailField_le order, ← nesting_propsField_le order]
  simp only [mem_nodeMembers]
  constructor
  · intro h
    exact ⟨h _ (.inl rfl), fun j hj => h _ (.inr (.inl ⟨j, hj, rfl⟩)),
      fun j hj => h _ (.inr (.inr ⟨j, hj, rfl⟩))⟩
  · rintro ⟨hhead, htail, hprops⟩ m (rfl | ⟨j, hj, rfl⟩ | ⟨j, hj, rfl⟩)
    · exact hhead
    · exact htail j hj
    · exact hprops j hj

/-- Neither the order of the fields nor that of the properties changes the nesting. -/
theorem nesting_ofExpr_canonical (order order' : FieldOrder) {e : Expr} (h : e.Distinct)
    (depth : Nat) :
    (ofExpr order e.canonical).nesting ≤ depth ↔ (ofExpr order' e).nesting ≤ depth := by
  induction h generalizing depth with
  | @node head tail props htail hkeys hvalues ihtail ihvalues =>
    rw [Expr.canonical_node]
    cases depth with
    | zero => simp [ofExpr_node, nesting]
    | succ depth =>
      rw [nesting_ofExpr_le, nesting_ofExpr_le, List.forall_mem_map]
      simp only [(Expr.perm_canonicalProps hkeys).mem_iff, List.forall_mem_map]
      refine and_congr_right fun _ => and_congr ?_ ?_
      · exact forall₂_congr fun e he => by rw [eq_of_forall_ge_iff (ihtail e he)]
      · exact forall₂_congr fun m hm => by rw [eq_of_forall_ge_iff (ihvalues m hm)]

/-! ## §3. Written values are well formed. -/

/-- Every character of a text has a scalar value. -/
theorem valid_ofString (text : String) : Codes.Valid (Codes.ofString text) := by
  intro code hcode
  obtain ⟨c, -, rfl⟩ := List.mem_map.mp hcode
  have hvalid : c.toNat.isValidChar := c.valid
  unfold Nat.isValidChar at hvalid
  omega

theorem wellFormed_ofString (text : String) : WellFormed (ofString text) :=
  .string (valid_ofString text)

/-- A double is written as a number, or as a null if it is not finite. -/
theorem wellFormed_ofFloat (x : Float) : WellFormed (ofFloat x) := by
  unfold ofFloat
  split
  next n h => exact .number (Numeral.wellFormed_of_ofFloat? h)
  next => exact .null

/-- A tag and a payload make an object, if the payload is well formed. -/
theorem wellFormed_typed {typeName : String} {value : Option Json} (h : ∀ j ∈ value, WellFormed j) :
    WellFormed (typed typeName value) := by
  have hmembers : ∀ m ∈ member "type" (ofString typeName) :: (value.map (member "value")).toList,
      Codes.Valid m.1 ∧ WellFormed m.2 := by
    intro m hm
    rcases List.mem_cons.mp hm with rfl | hm
    · exact ⟨valid_ofString _, wellFormed_ofString _⟩
    · obtain ⟨j, hj, rfl⟩ := Option.map_eq_some_iff.mp (Option.mem_toList.mp hm)
      exact ⟨valid_ofString _, h j hj⟩
  exact .object (fun m hm => (hmembers m hm).1) fun m hm => (hmembers m hm).2

/-- Whatever the head is, it is written as a value that a reader takes. -/
theorem wellFormed_ofAtom (head : Atom) : WellFormed (ofAtom head) := by
  cases head with
  | none => exact wellFormed_typed (by simp)
  | number x => exact wellFormed_typed (by simpa using wellFormed_ofFloat x)
  | complex z =>
    refine wellFormed_typed ?_
    have hparts : ∀ j ∈ [ofFloat z.re, ofFloat z.im], WellFormed j := by
      simpa using ⟨wellFormed_ofFloat z.re, wellFormed_ofFloat z.im⟩
    simpa using WellFormed.array hparts
  | symbol name => exact wellFormed_typed (by simpa using wellFormed_ofString name)
  | string contents => exact wellFormed_typed (by simpa using wellFormed_ofString contents)

end Json

end PlotLisp
