/-
  PlotLisp.Proofs.Json.RoundTrip
  ──────────────────────────────────────
  **JSON AND BACK.**

  An expression or output is read back from each of its JSON texts
  (`jsonTexts`: either layout, either order of fields, properties in any order,
  empty property maps shown or not) exactly if all its numbers are finite; and
  whatever is read from any text at all is read back from its own texts.

  Two things are assumed of an expression and not of all of them: that the
  numerals written for its numbers are read as the same numbers (`ReadsBack`),
  and that it is nested no deeper than reading goes.  What was itself read from
  a text is never nested too deep.
-/
import PlotLisp.Output
import PlotLisp.Proofs.Json.Variants

namespace PlotLisp

/-! ## §1. The texts of a value. -/

/-- The texts of a JSON value, in either layout. -/
def Json.layouts (j : Json) : List String := [j.compact, j.pretty]

theorem Json.parse?_layouts {j : Json} (h : Json.WellFormed j) :
    ∀ text ∈ j.layouts, Json.parse? text = some j := by
  simpa [Json.layouts] using ⟨Json.parse?_compact h, Json.parse?_pretty h⟩

namespace Expr

/-- The JSON texts of an expression: either layout, fields in either order, empty property maps
shown or not at every node that has no properties. -/
def jsonTexts (e : Expr) : Set String :=
  {text | ∃ order j, Json.Writes order e j ∧ text ∈ j.layouts}

/-- The texts without empty maps are among them. -/
theorem mem_jsonTexts_of_ofExpr {e : Expr} {text : String} (order : Json.FieldOrder)
    (h : text ∈ (Json.ofExpr order e).layouts) : text ∈ e.jsonTexts :=
  ⟨order, _, Json.writes_ofExpr e, h⟩

/-- The encoder's text without blanks is one of them, its fields sorted. -/
theorem toJson_mem_jsonTexts (e : Expr) : e.toJson ∈ e.jsonTexts :=
  mem_jsonTexts_of_ofExpr .sorted (by simp [Json.layouts, toJson])

/-- So is the indented one, its fields as they are declared. -/
theorem toPrettyJson_mem_jsonTexts (e : Expr) : e.toPrettyJson ∈ e.jsonTexts :=
  mem_jsonTexts_of_ofExpr .declared (by simp [Json.layouts, toPrettyJson])

/-- The nesting of the JSON texts of an expression. -/
def nesting (e : Expr) : Nat := (Json.ofExpr .sorted e).nesting

/-- A text of an expression is read as one of the values that may be written for it. -/
theorem parse?_jsonTexts {e : Expr} {text : String} (h : text ∈ e.jsonTexts) :
    ∃ order j, Json.Writes order e j ∧ Json.parse? text = some j := by
  obtain ⟨order, j, hwrites, hlayout⟩ := h
  exact ⟨order, j, hwrites, Json.parse?_layouts hwrites.wellFormed text hlayout⟩

/-! ## §2. Listings of one expression. -/

namespace Lists

variable {listing e : Expr}

/-- Whether all numbers are finite does not depend on the order in which properties are listed. -/
theorem allFinite_iff (h : listing.Lists e) : listing.AllFinite ↔ e.AllFinite := by
  rw [← h.canonical_eq]
  exact (forall_mem_numbers_canonical h.distinct).symm

/-- Neither does whether the expression is read back. -/
theorem readsBack_iff (h : listing.Lists e) : listing.ReadsBack ↔ e.ReadsBack := by
  rw [← h.canonical_eq]
  exact (forall_mem_numbers_canonical h.distinct).symm

/-- Neither does the nesting of its value. -/
theorem nesting_le_iff (h : listing.Lists e) (order : Json.FieldOrder) (depth : Nat) :
    (Json.ofExpr order listing).nesting ≤ depth ↔ e.nesting ≤ depth := by
  rw [← h.canonical_eq]
  exact (Json.nesting_ofExpr_canonical .sorted order h.distinct depth).symm

/-- What is read from a value that is written for a listing. -/
theorem expr?_eq_some_iff (h : listing.Lists e) (hback : e.ReadsBack) {order : Json.FieldOrder}
    {j : Json} (hj : Json.Writes order listing j) {depth : Nat} (hdepth : e.nesting ≤ depth)
    (e' : Expr) : Json.expr? depth j = some e' ↔ e.AllFinite ∧ e' = e := by
  rw [hj.expr?_eq, Json.expr?_ofExpr (h.readsBack_iff.mpr hback) depth e', h.nesting_le_iff order,
    h.allFinite_iff, h.canonical_eq]
  simp [hdepth]

end Lists

end Expr

/-! ## §3. Outputs. -/

namespace Output

/-- The JSON value of an output. -/
def json (order : Json.FieldOrder) : Output → Json
  | .result e => .object [Json.member "result" (Json.ofExpr order e)]
  | .error message => .object [Json.member "error" (Json.ofString message)]

/-- The value may be written for the output. -/
inductive Writes (order : Json.FieldOrder) : Output → Json → Prop where
  | result {e : Expr} {j : Json} (h : Json.Writes order e j) :
      Writes order (.result e) (.object [Json.member "result" j])
  | error (message : String) :
      Writes order (.error message) (.object [Json.member "error" (Json.ofString message)])

theorem writes_json (order : Json.FieldOrder) (output : Output) :
    Writes order output (output.json order) := by
  cases output with
  | result e => exact .result (Json.writes_ofExpr e)
  | error message => exact .error message

/-- The JSON texts of an output, in all the ways in which its result may be written. -/
def jsonTexts (output : Output) : Set String :=
  {text | ∃ order j, Writes order output j ∧ text ∈ j.layouts}

theorem toJson_mem_jsonTexts (output : Output) : output.toJson ∈ output.jsonTexts :=
  ⟨.sorted, _, writes_json .sorted output, by cases output <;> simp [Json.layouts, toJson, json]⟩

/-- The output `listing` is `output`, but for the order in which properties are
listed. -/
inductive Lists : Output → Output → Prop where
  | result {listing e : Expr} (h : listing.Lists e) : Lists (.result listing) (.result e)
  | error (message : String) : Lists (.error message) (.error message)

/-- The numbers of the result, if there is one. -/
def numbers : Output → List Float
  | .result e => e.numbers
  | .error _ => []

/-- No number of the result is an infinity or NaN. -/
def AllFinite (output : Output) : Prop := ∀ x ∈ output.numbers, x.isFinite = true

/-- The numerals that are written for the numbers of the result are read as those
numbers. -/
def ReadsBack (output : Output) : Prop :=
  ∀ x ∈ output.numbers, ∀ n, Numeral.ofFloat? x = some n → n.toFloat? = some x

/-- The nesting of the JSON texts of an output. -/
def nesting (output : Output) : Nat := (output.json .sorted).nesting

theorem Writes.wellFormed {order : Json.FieldOrder} {output : Output} {j : Json}
    (h : Writes order output j) : Json.WellFormed j := by
  cases h with
  | result h =>
    exact .object (by simp [Json.member, Json.valid_ofString]) (by simp [Json.member, h.wellFormed])
  | error message =>
    exact .object (by simp [Json.member, Json.valid_ofString])
      (by simp [Json.member, Json.wellFormed_ofString])

/-- A text of an output is read as one of the values that may be written for it. -/
theorem parse?_jsonTexts {output : Output} {text : String} (h : text ∈ output.jsonTexts) :
    ∃ order j, Writes order output j ∧ Json.parse? text = some j := by
  obtain ⟨order, j, hwrites, hlayout⟩ := h
  exact ⟨order, j, hwrites, Json.parse?_layouts hwrites.wellFormed text hlayout⟩

theorem nesting_result_le {e : Expr} {depth : Nat} :
    (Output.result e).nesting ≤ depth + 1 ↔ e.nesting ≤ depth := by
  rw [nesting, json, Json.nesting_object_le]
  simp [Json.member, Expr.nesting]

/-- A result is one level of its own, which its expression cannot use. -/
theorem ofValue?_result (j : Json) :
    ofValue? (.object [Json.member "result" j])
      = (Json.expr? (Json.nestingLimit - 1) j).map .result := by
  simp [ofValue?, Json.member]

/-- An error is read back whatever its message says. -/
theorem ofValue?_error (message : String) :
    ofValue? (.object [Json.member "error" (Json.ofString message)]) = some (.error message) := by
  simp [ofValue?, Json.member]

/-- What is read from a value that is written for a listing of an output. -/
theorem Lists.ofValue?_eq_some_iff {listing output : Output} (h : listing.Lists output)
    (hback : output.ReadsBack) {order : Json.FieldOrder} {j : Json} (hj : Writes order listing j)
    (hnesting : output.nesting ≤ Json.nestingLimit) (output' : Output) :
    ofValue? j = some output' ↔ output.AllFinite ∧ output' = output := by
  cases h with
  | @result listing e h =>
    obtain ⟨hj⟩ := hj
    have hdepth : e.nesting ≤ Json.nestingLimit - 1 := nesting_result_le.mp hnesting
    have hread := (show GivenIf _ _ _ from h.expr?_eq_some_iff hback hj hdepth).map Output.result
    rw [ofValue?_result]
    exact hread output'
  | error message =>
    cases hj
    rw [ofValue?_error]
    exact ((GivenIf.some (Output.error message)).congr (by simp [AllFinite, numbers])) output'

/-- Whatever is read as an output is one that can be written and read again. -/
theorem of_ofValue? {j : Json} {output : Output} (h : ofValue? j = some output) :
    output.Lists output ∧ output.AllFinite ∧ output.nesting ≤ Json.nestingLimit := by
  unfold ofValue? at h
  split at h
  next key value =>
    split at h
    next =>
      obtain ⟨e, he, rfl⟩ := Option.map_eq_some_iff.mp h
      have hdecodable := Json.decodable_of_expr? .sorted he
      exact ⟨.result hdecodable.keyed.lists_self, hdecodable.allFinite,
        nesting_result_le.mpr hdecodable.nesting_le⟩
    next =>
      obtain ⟨message, -, rfl⟩ := Option.map_eq_some_iff.mp h
      exact ⟨.error message, by simp [AllFinite, numbers],
        by simp [nesting, json, Json.nesting, Json.memberNesting, Json.member, Json.ofString,
          Json.nestingLimit]⟩
    next => cases h
  next => cases h

end Output

/-! ## §4. There and back. -/

/-- Expressions and outputs are read back from each of their JSON texts exactly if
all their numbers are finite; whatever is read from a text, in whatever shape, is
read back from each of its own texts. -/
theorem json_round_trips :
    (∀ {listing e : Expr}, listing.Lists e → e.ReadsBack → e.nesting ≤ Json.nestingLimit →
      ∀ text ∈ listing.jsonTexts, ∀ e', Expr.ofJson? text = some e' ↔ e.AllFinite ∧ e' = e)
    ∧ (∀ {text : String} {e : Expr}, Expr.ofJson? text = some e → e.ReadsBack →
      e.Lists e ∧ ∀ listing : Expr, listing.Lists e →
        ∀ text' ∈ listing.jsonTexts, Expr.ofJson? text' = some e)
    ∧ (∀ {listing output : Output}, listing.Lists output → output.ReadsBack →
      output.nesting ≤ Json.nestingLimit → ∀ text ∈ listing.jsonTexts, ∀ output',
        Output.ofJson? text = some output' ↔ output.AllFinite ∧ output' = output)
    ∧ (∀ {text : String} {output : Output}, Output.ofJson? text = some output → output.ReadsBack →
      output.Lists output ∧ ∀ listing : Output, listing.Lists output →
        ∀ text' ∈ listing.jsonTexts, Output.ofJson? text' = some output) := by
  have hexpr : ∀ {listing e : Expr}, listing.Lists e → e.ReadsBack → e.nesting ≤ Json.nestingLimit →
      ∀ text ∈ listing.jsonTexts, ∀ e', Expr.ofJson? text = some e' ↔ e.AllFinite ∧ e' = e := by
    intro listing e h hback hnesting text htext e'
    obtain ⟨order, j, hj, hparse⟩ := Expr.parse?_jsonTexts htext
    rw [Expr.ofJson?, hparse]
    exact h.expr?_eq_some_iff hback hj hnesting e'
  have houtput : ∀ {listing output : Output}, listing.Lists output → output.ReadsBack →
      output.nesting ≤ Json.nestingLimit → ∀ text ∈ listing.jsonTexts, ∀ output',
        Output.ofJson? text = some output' ↔ output.AllFinite ∧ output' = output := by
    intro listing output h hback hnesting text htext output'
    obtain ⟨order, j, hj, hparse⟩ := Output.parse?_jsonTexts htext
    rw [Output.ofJson?, hparse]
    exact h.ofValue?_eq_some_iff hback hj hnesting output'
  -- what is read is a listing of itself and has finite numbers, so the other two parts follow
  refine ⟨hexpr, fun {text e} hread hback => ?_, houtput, fun {text output} hread hback => ?_⟩
  · obtain ⟨j, -, hj⟩ := Option.bind_eq_some_iff.mp hread
    have hdecodable := Json.decodable_of_expr? .sorted hj
    exact ⟨hdecodable.keyed.lists_self, fun listing hlisting text' htext' =>
      (hexpr hlisting hback hdecodable.nesting_le text' htext' e).mpr ⟨hdecodable.allFinite, rfl⟩⟩
  · obtain ⟨j, -, hj⟩ := Option.bind_eq_some_iff.mp hread
    obtain ⟨hself, hfinite, hnesting⟩ := Output.of_ofValue? hj
    exact ⟨hself, fun listing hlisting text' htext' =>
      (houtput hlisting hback hnesting text' htext' output).mpr ⟨hfinite, rfl⟩⟩

/-- One half is finite; it is written as `0.5`, and `0.5` is read as one half. -/
theorem finite_and_readsBack_of_half {e : Expr} (h : ∀ x ∈ e.numbers, x = 0.5) :
    e.AllFinite ∧ e.ReadsBack := by
  have hwrite : Numeral.ofFloat? 0.5 = some ⟨false, ['0'], ['5'], none⟩ := by decide +kernel
  constructor
  · intro x hx
    obtain rfl := h x hx
    decide +kernel
  · intro x hx n hn
    obtain rfl := h x hx
    obtain rfl := Option.some.inj (hwrite.symm.trans hn)
    decide +kernel

/-- Properties out of order, an array for a node, and both kinds of output. -/
theorem json_round_trips_half :
    (Expr.node (.number 0.5) [] [("b", .none), ("a", .none)]).Lists
        (.node (.number 0.5) [] [("a", .none), ("b", .none)])
    ∧ Expr.ofJson? (Json.ofExpr .declared
        (.node (.number 0.5) [] [("b", .none), ("a", .none)])).compact
      = some (.node (.number 0.5) [] [("a", .none), ("b", .none)])
    ∧ Expr.ofJson? "[[\"number\",0.5]]" = some (.number 0.5)
    ∧ Expr.ofJson? (Expr.number 0.5).toJson = some (.number 0.5)
    ∧ Output.ofJson? (Output.result (.number 0.5)).toJson = some (.result (.number 0.5))
    ∧ Output.ofJson? "\x7b \"error\" : \"no\" \x7d" = some (.error "no")
    ∧ Output.ofJson? (Output.error "no").toJson = some (.error "no") := by
  have hleaf : ∀ head : Atom, (Expr.atom head).Keyed := fun head =>
    .node (by simp) List.Pairwise.nil (by simp)
  have hvalues : ∀ m ∈ [("b", Expr.none), ("a", Expr.none)], m.2.Distinct := by
    have hnone : Expr.none.Distinct := (hleaf .none).distinct
    simpa using hnone
  have hlists : (Expr.node (.number 0.5) [] [("b", .none), ("a", .none)]).Lists
      (.node (.number 0.5) [] [("a", .none), ("b", .none)]) :=
    ⟨.node (by simp) (by decide) hvalues, by decide +kernel⟩
  obtain ⟨hfinite, hback⟩ := finite_and_readsBack_of_half
    (e := .node (.number 0.5) [] [("a", .none), ("b", .none)])
    (by decide +kernel)
  obtain ⟨hhalfFinite, hhalfBack⟩ :=
    finite_and_readsBack_of_half (e := .number 0.5) (by decide +kernel)
  have harray : Expr.ofJson? "[[\"number\",0.5]]" = some (.number 0.5) := by decide +kernel
  have herror : Output.ofJson? "\x7b \"error\" : \"no\" \x7d" = some (.error "no") := by
    decide +kernel
  have hself : (Output.result (.number 0.5)).Lists (.result (.number 0.5)) :=
    .result (hleaf (.number 0.5)).lists_self
  obtain ⟨hexpr, hread, houtput, hreadOutput⟩ := json_round_trips
  refine ⟨hlists, ?_, harray, ?_, ?_, herror, ?_⟩
  · exact (hexpr hlists hback (by decide +kernel) _
      (Expr.mem_jsonTexts_of_ofExpr .declared (by simp [Json.layouts])) _).mpr ⟨hfinite, rfl⟩
  · exact (hread harray hhalfBack).2 _ (hleaf (.number 0.5)).lists_self _
      (Expr.toJson_mem_jsonTexts _)
  · exact (houtput hself hhalfBack (by decide +kernel) _ (Output.toJson_mem_jsonTexts _) _).mpr
      ⟨hhalfFinite, rfl⟩
  · exact (hreadOutput herror (by simp [Output.ReadsBack, Output.numbers])).2 _ (.error "no") _
      (Output.toJson_mem_jsonTexts _)

/-- An infinity is written as `null`, which is no number. -/
example : Expr.ofJson? (Expr.number (1.0 / 0.0)).toJson = none := by decide +kernel

end PlotLisp
