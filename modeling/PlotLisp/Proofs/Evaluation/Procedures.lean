/-
  PlotLisp.Proofs.Evaluation.Procedures
  ──────────────────────────────────────
  **PROCEDURES BUILD VALUES FROM VALUES.**

  Procedures make their results out of atoms, of lists, of parts of their
  arguments and of properties, and of nothing else:

    • `ClosedValues V` — the class `V` of trees is closed under these;
    • `ClosedValues.run` — then every procedure stays within `V`.

  The faults that checks and procedures raise are `Ordinary`.
-/
import PlotLisp.Procedure.Run
import PlotLisp.Proofs.Evaluation.Keeps
import PlotLisp.Proofs.Evaluation.Raising

namespace PlotLisp

/-! ## §1. Checks. -/

/-- A check that gives anything, or fails with an ordinary fault. -/
abbrev FailsOrdinarily {α : Type} (r : Except Fault α) : Prop :=
  EndsWith (fun _ => True) Fault.Ordinary r

/-- Taking a value for what it is not is an ordinary fault, whatever was wanted but a
lambda. -/
theorem Expr.expect_ends {α : Type} (e : Expr) (view : Option α) (place : String)
    {expected : String} (h : expected ≠ lambdaWanted) :
    EndsWith (fun a => view = some a) Fault.Ordinary (e.expect view place expected) := by
  cases view with
  | none => exact .atRuntime h
  | some a => rfl

/-- A list with a first element is taken apart; everything else is an ordinary fault. -/
theorem Expr.asNonempty_ends (e : Expr) (place : String) :
    EndsWith (fun items => e.items? = some (items.1 :: items.2)) Fault.Ordinary
      (e.asNonempty place) := by
  unfold Expr.asNonempty
  refine (e.expect_ends e.items? place (by decide)).bind ?_
  intro items hitems
  -- the empty list is a list, but of the wrong kind
  cases items with
  | nil => exact .mismatch (by decide)
  | cons first rest => exact hitems

/-- The elements of a list are its children. -/
theorem Expr.items?_eq_some {e : Expr} {items : List Expr} (h : e.items? = some items) :
    e.isList = true ∧ e.tail = items := by
  unfold Expr.items? at h
  split at h
  · rename_i hl
    exact ⟨hl, Option.some.inj h⟩
  · cases h

/-! ## §2. Numbers. -/

/-- A count that is not taken is an ordinary fault. -/
theorem requireCount_ends (place : String) (expected : ArgCount) (actual : Nat) :
    FailsOrdinarily (requireCount place expected actual) := by
  unfold requireCount
  split
  · trivial
  · exact .atRuntime trivial

/-- An argument that is no number is an ordinary fault. -/
theorem Operands.ofArguments_ends (place : String) (args : List Expr) :
    FailsOrdinarily (ofArguments place args) := by
  unfold ofArguments
  split
  · -- all of them real
    trivial
  · have hpromoted : ∀ e ∈ args, FailsOrdinarily (asPromoted place e) := by
      intro e _
      exact (e.expect_ends (promote? e) place (by decide)).mono fun _ _ => trivial
    exact (EndsWith.mapM hpromoted).map fun _ _ => trivial

/-- Arithmetic gives numbers, real or complex. -/
theorem Arithmetic.onOperands_literal {operation : Arithmetic} {operands : Operands} {a : Atom}
    (h : operation.onOperands operands = some a) : a.symbol? = none := by
  cases operands with
  | real xs =>
    have h : operation.onReals xs = some a := h
    unfold onReals at h
    split at h
    case h_8 x =>
      -- the root, which may be imaginary
      cases h
      unfold rootOfReal
      split <;> rfl
    all_goals first
      | cases h; rfl
      | cases h
  | complex zs =>
    obtain ⟨z, -, rfl⟩ := Option.map_eq_some_iff.mp h
    rfl

/-! ## §3. Faults of plot data. -/

/-- An option takes a value of its own kind, or is no option. -/
theorem PlotOptions.set_ends (options : PlotOptions Float) (key : String) (value : Expr) :
    FailsOrdinarily (options.set key value) := by
  have hwanted : "a string" ≠ lambdaWanted := by decide
  have hstring := value.expect_ends value.string? key hwanted
  unfold PlotOptions.set
  split
  · -- the title
    exact hstring.bind fun _ _ => trivial
  · split
    · -- the label of the abscissa
      exact hstring.bind fun _ _ => trivial
    · split
      · -- the label of the ordinate
        exact hstring.bind fun _ _ => trivial
      · split
        · -- the scale
          exact (value.expect_ends _ key (by decide)).bind fun _ _ => trivial
        · -- keys that mean nothing are skipped
          trivial

/-- An option that is no key with a value is an ordinary fault. -/
theorem PlotOptions.setPair_ends (options : PlotOptions Float) (option : Expr) :
    FailsOrdinarily (options.setPair option) := by
  unfold PlotOptions.setPair
  refine (option.expect_ends option.items? PlotOptions.place (by decide)).bind ?_
  intro items _
  split
  · split
    · exact options.set_ends _ _
    · exact .mismatch (by decide)
  · exact .mismatch (by decide)

theorem PlotOptions.ofExpr_ends (e : Expr) :
    FailsOrdinarily (PlotOptions.ofExpr e) := by
  unfold PlotOptions.ofExpr
  refine (e.expect_ends e.items? PlotOptions.place (by decide)).bind ?_
  intro items _
  exact EndsWith.foldlM (fun options _ option _ => options.setPair_ends option) _ trivial

/-- What is no pair of numbers is an ordinary fault. -/
theorem readSample_ends (form : String) (item : Expr) :
    FailsOrdinarily (readSample form item) := by
  unfold readSample
  refine (item.expect_ends item.items? form (by decide)).bind ?_
  intro coords _
  split
  · split
    · trivial
    · exact .mismatch (by decide)
  · exact .mismatch (by decide)

theorem readSamples_ends (form : String) (data : Expr) :
    FailsOrdinarily (readSamples form data) := by
  unfold readSamples
  refine (data.expect_ends data.items? form (by decide)).bind ?_
  intro items _
  split
  · exact .whilePlotting .noData
  · exact (EndsWith.mapM fun item _ => readSample_ends form item).mono fun _ _ => trivial

/-- Bounds that are no numbers are ordinary faults, an empty range is a refusal to plot. -/
theorem readRange_ends (range : Expr) :
    FailsOrdinarily (readRange range) := by
  unfold readRange
  have hlist := range.expect_ends range.items? PlotKind.continuous.name
    (by decide : "a list" ≠ lambdaWanted)
  refine hlist.bind ?_
  intro items _
  split
  · split
    · split
      · trivial
      · exact .whilePlotting .emptyRange
    · exact .mismatch (by decide)
  · exact .atRuntime trivial

/-! ## §4. Classes of values. -/

/-- A class of trees that holds what is built from its members. -/
structure ClosedValues (V : Expr → Prop) : Prop where
  /-- Atoms that stand for themselves. -/
  atom : ∀ a : Atom, a.symbol? = none → V (.atom a)
  /-- Lists of members. -/
  list : ∀ items : List Expr, (∀ v ∈ items, V v) → V (.list items)
  /-- Elements of a list. -/
  item : ∀ v : Expr, V v → v.isList = true → ∀ c ∈ v.tail, V c
  /-- Members with one more property. -/
  setProp : ∀ (v : Expr) (key : String) (value : Expr), V v → V value → V (v.setProp key value)
  /-- Values of properties. -/
  prop : ∀ (v : Expr) (key : String) (value : Expr), V v → v.prop? key = some value → V value

namespace ClosedValues

variable {V : Expr → Prop} (hV : ClosedValues V)

include hV

/-- A missing property gives the atom for nothing, which is in every class. -/
theorem propertyOf {target : Expr} (h : V target) (key : String) :
    V (Procedure.propertyOf key target) := by
  unfold Procedure.propertyOf
  cases hp : target.prop? key with
  | none => exact hV.atom .none rfl
  | some value => exact hV.prop target key value h hp

/-- The elements of a list that is in a class are in there too. -/
theorem items {e : Expr} {items : List Expr} (h : V e) (hi : e.items? = some items) :
    ∀ v ∈ items, V v := by
  obtain ⟨hl, rfl⟩ := Expr.items?_eq_some hi
  exact hV.item e h hl

/-! ## §5. Plots. -/

theorem tagged {e : Expr} (h : V e) (name : String) : V (tagged name e) :=
  hV.setProp e _ _ h (hV.atom _ rfl)

theorem pair {a b : Expr} (ha : V a) (hb : V b) : V (.list [a, b]) := by
  refine hV.list [a, b] ?_
  intro v hv
  simp only [List.mem_cons, List.not_mem_nil, or_false] at hv
  rcases hv with rfl | rfl
  · exact ha
  · exact hb

/-- A place on the screen is a pair of numbers, marked as a point. -/
theorem anchor (place : Position Float) : V (anchor place) :=
  hV.tagged (hV.pair (hV.atom _ rfl) (hV.atom _ rfl)) "point"

/-- The elements of a plot, with all they are annotated with. -/
theorem primitive (element : Primitive Float) : V element.toExpr := by
  have hnumber (x : Float) : V (.number x) := hV.atom _ rfl
  cases element with
  | point place size => exact hV.setProp _ sizeKey _ (hV.anchor place) (hnumber size)
  | line start stop =>
    have hends := hV.pair (hV.anchor start) (hV.anchor stop)
    exact hV.setProp _ thicknessKey _ (hV.tagged hends "line") (hnumber 0.0)
  | text caption place scale rotation =>
    -- three properties on top of the tag
    have htext : V (PlotLisp.tagged "text" (.string caption.text)) :=
      hV.tagged (hV.atom _ rfl) "text"
    have hplaced := hV.setProp _ positionKey _ htext (hV.anchor place)
    have hscaled := hV.setProp _ textScaleKey _ hplaced (hnumber scale)
    exact hV.setProp _ textRotationKey _ hscaled (hnumber rotation.radians)

/-- A plot is a list of its elements, or a refusal. -/
theorem plotOf (kind : PlotKind) (options : PlotOptions Float)
    (samples : List (Position Float)) :
    EndsWith V Fault.Ordinary (plotOf kind options samples) := by
  unfold PlotLisp.plotOf
  cases scene kind options samples with
  | error refusal => exact .whilePlotting refusal
  | ok elements =>
    refine hV.list _ ?_
    intro v hv
    obtain ⟨element, -, rfl⟩ := List.mem_map.mp hv
    exact hV.primitive element

/-! ## §6. All procedures. -/

/-- Results of arithmetic are numbers; operands that have none are ordinary faults. -/
theorem arithmetic (operation : Arithmetic) (args : List Expr) :
    EndsWith V Fault.Ordinary (operation.run args) := by
  unfold Arithmetic.run
  refine (requireCount_ends _ _ _).bind ?_
  intro _ _
  refine (Operands.ofArguments_ends _ args).bind ?_
  intro operands _
  split
  · rename_i result hresult
    exact hV.atom result (Arithmetic.onOperands_literal hresult)
  · exact .atRuntime trivial

/-- A part of a complex number is a real one. -/
theorem part (which : ComplexPart) (args : List Expr) :
    EndsWith V Fault.Ordinary (which.run args) := by
  unfold ComplexPart.run
  split
  · rename_i e
    refine (e.expect_ends e.complex? which.name (by decide)).map fun z _ => hV.atom _ ?_
    cases which <;> rfl
  · exact .atRuntime trivial

/-- What is first in a list was in there. -/
theorem first {args : List Expr} (hargs : ∀ v ∈ args, V v) :
    EndsWith V Fault.Ordinary (Lists.first args) := by
  unfold Lists.first
  split
  · rename_i e
    refine (e.asNonempty_ends "first").map ?_
    intro items hitems
    exact hV.items (hargs e List.mem_cons_self) hitems _ List.mem_cons_self
  · exact .atRuntime trivial

/-- What is left of a list was in there. -/
theorem rest {args : List Expr} (hargs : ∀ v ∈ args, V v) :
    EndsWith V Fault.Ordinary (Lists.rest args) := by
  unfold Lists.rest
  split
  · rename_i e
    refine (e.asNonempty_ends "rest").map ?_
    intro items hitems
    refine hV.list _ ?_
    intro v hv
    exact hV.items (hargs e List.mem_cons_self) hitems v (List.mem_cons_of_mem _ hv)
  · exact .atRuntime trivial

/-- Appending puts an argument into a list of arguments. -/
theorem append {args : List Expr} (hargs : ∀ v ∈ args, V v) :
    EndsWith V Fault.Ordinary (Lists.append args) := by
  unfold Lists.append
  split
  · rename_i e value
    have hvalue : V value := hargs value (by simp)
    refine (e.asNonempty_ends "append").bind ?_
    intro items hitems
    refine hV.list _ ?_
    intro v hv
    rcases List.mem_append.mp hv with hv | hv
    · exact hV.items (hargs e List.mem_cons_self) hitems v hv
    · -- what is added: the elements of a list, or the value
      split at hv
      · rename_i hl
        exact hV.item value hvalue hl v hv
      · rw [List.mem_singleton.mp hv]
        exact hvalue
  · exact .atRuntime trivial

/-- Joining puts the elements of all lists into one. -/
theorem join {args : List Expr} (hargs : ∀ v ∈ args, V v) :
    EndsWith V Fault.Ordinary (Lists.join args) := by
  unfold Lists.join
  split
  · rename_i e e'
    refine (e.expect_ends e.items? "join" (by decide)).bind ?_
    intro items hitems
    refine (e'.expect_ends e'.items? "join" (by decide)).bind ?_
    intro items' hitems'
    refine hV.list _ ?_
    intro v hv
    rcases List.mem_append.mp hv with hv | hv
    · exact hV.items (hargs e (by simp)) hitems v hv
    · exact hV.items (hargs e' (by simp)) hitems' v hv
  · exact .atRuntime trivial

/-- A grid is a list of numbers; a refused one is an ordinary fault. -/
theorem range (args : List Expr) : EndsWith V Fault.Ordinary (Lists.range args) := by
  unfold Lists.range
  split
  · rename_i start stop step
    have hwanted : "a number" ≠ lambdaWanted := by decide
    have hnumber (e : Expr) := e.expect_ends e.number? "range" hwanted
    refine (hnumber start).bind ?_
    intro start _
    refine (hnumber stop).bind ?_
    intro stop _
    refine (hnumber step).bind ?_
    intro step _
    split
    · refine hV.list _ ?_
      intro v hv
      obtain ⟨x, -, rfl⟩ := List.mem_map.mp hv
      exact hV.atom _ rfl
    · rename_i refusal _
      cases refusal with
      | noInterval => exact .mismatch (by decide)
      | badStep step => exact .mismatch (by decide)
      | tooLong steps => exact .mismatch (by decide)
  · exact .atRuntime trivial

/-- Plots are built from the samples alone, not from the values they were read from. -/
theorem runPlot (kind : PlotKind) (args : List Expr) :
    EndsWith V Fault.Ordinary (Procedure.runPlot kind args) := by
  unfold Procedure.runPlot
  split
  · exact .atRuntime trivial
  · rename_i data
    refine (readSamples_ends kind.name data).bind ?_
    intro samples _
    exact hV.plotOf kind .default samples
  · rename_i data options
    refine (readSamples_ends kind.name data).bind ?_
    intro samples _
    refine (PlotOptions.ofExpr_ends options).bind ?_
    intro options _
    exact hV.plotOf kind options samples
  · exact .atRuntime trivial

/-- **Procedures make members of the class from members of the class.** -/
theorem run (procedure : Procedure) {args : List Expr} (hargs : ∀ v ∈ args, V v) :
    EndsWith V Fault.Ordinary (procedure.run args) := by
  cases procedure with
  | arithmetic operation => exact hV.arithmetic operation args
  | part which => exact hV.part which args
  | list => exact hV.list args hargs
  | first => exact hV.first hargs
  | rest => exact hV.rest hargs
  | length =>
    show EndsWith V Fault.Ordinary (Lists.length args)
    unfold Lists.length
    split
    · rename_i e
      refine (e.expect_ends e.items? "length" (by decide)).map ?_
      intro items _
      exact hV.atom _ rfl
    · exact .atRuntime trivial
  | append => exact hV.append hargs
  | join => exact hV.join hargs
  | range => exact hV.range args
  | setProperty =>
    show EndsWith V Fault.Ordinary (Procedure.runSetProperty args)
    unfold Procedure.runSetProperty
    split
    · rename_i key value target
      refine (key.expect_ends key.string? "set-property" (by decide)).map ?_
      intro key _
      exact hV.setProp target key value (hargs target (by simp)) (hargs value (by simp))
    · exact .atRuntime trivial
  | getProperty =>
    show EndsWith V Fault.Ordinary (Procedure.runGetProperty args)
    unfold Procedure.runGetProperty
    split
    · rename_i key target
      refine (key.expect_ends key.string? "get-property" (by decide)).map ?_
      intro key _
      exact hV.propertyOf (hargs target (by simp)) key
    · exact .atRuntime trivial
  | plot kind => exact hV.runPlot kind args
  | nothing => exact hV.atom .none rfl

end ClosedValues

end PlotLisp
