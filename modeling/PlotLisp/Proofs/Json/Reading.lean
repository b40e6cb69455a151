/-
  PlotLisp.Proofs.Json.Reading
  ──────────────────────────────────────
  **WRITTEN VALUES ARE READ BACK.**

  The parser folds the tokens of a value into that value, whatever is open
  around it (`foldl_tokensOf`); the three lemmas follow the three types that make
  up a value.  With the scanner's half, a well-formed value is read back from
  either layout (`parse?_compact`, `parse?_pretty`).
-/
import PlotLisp.Json.Parse
import PlotLisp.Proofs.Json.Scanning

namespace PlotLisp.Json

/-! ## §1. The first item and the first member. -/

/-- An array's first item is read like any value, since no value starts with the end
of an array. -/
theorem foldl_awaitItem (first : Json) (rest : List Json) (outer : List Open) :
    (List.intercalate [Token.comma] (itemTokens (first :: rest)) ++ [Token.closeArray]).foldl
        Progress.push (.awaitItem outer)
      = (List.intercalate [Token.comma] (itemTokens (first :: rest)) ++ [Token.closeArray]).foldl
          Progress.push (.awaitValue (.array [] :: outer)) := by
  cases rest with
  | nil =>
    rw [itemTokens, itemTokens, List.intercalate_singleton]
    cases first <;> rfl
  | cons next rest =>
    rw [itemTokens, itemTokens, List.intercalate_cons_cons, List.append_assoc, List.append_assoc]
    cases first <;> rfl

/-- An object's first key is read like any key. -/
theorem foldl_awaitMember (first : Codes × Json) (rest : List (Codes × Json)) (outer : List Open) :
    (List.intercalate [Token.comma] (memberTokens (first :: rest)) ++ [Token.closeObject]).foldl
        Progress.push (.awaitMember outer)
      = (List.intercalate [Token.comma] (memberTokens (first :: rest)) ++ [Token.closeObject]).foldl
          Progress.push (.awaitKey [] outer) := by
  cases rest with
  | nil =>
    rw [memberTokens, memberTokens, List.intercalate_singleton]
    rfl
  | cons next rest =>
    rw [memberTokens, memberTokens, List.intercalate_cons_cons]
    rfl

/-! ## §2. Values, items, members. -/

mutual

/-- The tokens of a value are read as that value. -/
theorem foldl_tokensOf : ∀ (j : Json) (outer : List Open),
    (tokensOf j).foldl Progress.push (.awaitValue outer) = Progress.close j outer
  | .null, _ => rfl
  | .bool _, _ => rfl
  | .number _, _ => rfl
  | .string _, _ => rfl
  | .array [], _ => rfl
  | .array (first :: rest), outer => by
      rw [tokensOf, List.foldl_cons]
      exact (foldl_awaitItem first rest outer).trans
        (foldl_itemTokens (first :: rest) (by simp) [] outer)
  | .object [], _ => rfl
  | .object (first :: rest), outer => by
      rw [tokensOf, List.foldl_cons]
      exact (foldl_awaitMember first rest outer).trans
        (foldl_memberTokens (first :: rest) (by simp) [] outer)

/-- Items go into the array around them. -/
theorem foldl_itemTokens : ∀ (items : List Json), items ≠ [] → ∀ (before : List Json)
    (outer : List Open),
    (List.intercalate [Token.comma] (itemTokens items) ++ [Token.closeArray]).foldl Progress.push
        (.awaitValue (.array before :: outer))
      = Progress.close (.array (before.reverse ++ items)) outer
  | [last], _, before, outer => by
      rw [itemTokens, itemTokens, List.intercalate_singleton, List.foldl_append,
        foldl_tokensOf last (.array before :: outer)]
      show Progress.close (.array (last :: before).reverse) outer = _
      rw [List.reverse_cons]
  | item :: next :: rest, _, before, outer => by
      have hrest := foldl_itemTokens (next :: rest) (by simp) (item :: before) outer
      rw [List.reverse_cons, List.append_assoc, List.singleton_append] at hrest
      rw [itemTokens, itemTokens, List.intercalate_cons_cons, ← itemTokens, List.append_assoc,
        List.append_assoc, List.foldl_append, foldl_tokensOf item (.array before :: outer)]
      exact hrest

/-- Members go into the object around them. -/
theorem foldl_memberTokens : ∀ (members : List (Codes × Json)), members ≠ [] →
    ∀ (before : List (Codes × Json)) (outer : List Open),
    (List.intercalate [Token.comma] (memberTokens members) ++ [Token.closeObject]).foldl Progress.push
        (.awaitKey before outer)
      = Progress.close (.object (before.reverse ++ members)) outer
  | [(key, value)], _, before, outer => by
      have hvalue := foldl_tokensOf value (.object before key :: outer)
      rw [memberTokens, memberTokens, List.intercalate_singleton, List.foldl_append]
      show Progress.push ((tokensOf value).foldl Progress.push
        (.awaitValue (.object before key :: outer))) .closeObject = _
      rw [hvalue]
      show Progress.close (.object ((key, value) :: before).reverse) outer = _
      rw [List.reverse_cons]
  | (key, value) :: next :: rest, _, before, outer => by
      have hvalue := foldl_tokensOf value (.object before key :: outer)
      have hrest := foldl_memberTokens (next :: rest) (by simp) ((key, value) :: before) outer
      rw [List.reverse_cons, List.append_assoc, List.singleton_append] at hrest
      rw [memberTokens, memberTokens, List.intercalate_cons_cons, ← memberTokens, List.append_assoc,
        List.append_assoc, List.foldl_append]
      show List.foldl Progress.push ((tokensOf value).foldl Progress.push
        (.awaitValue (.object before key :: outer))) _ = _
      rw [hvalue]
      exact hrest

end

/-! ## §3. Texts. -/

/-- A text that spells the tokens of a value is read as that value. -/
theorem parse?_of_spells {text : String} {j : Json} (h : Spells text.toList (tokensOf j)) :
    parse? text = some j := by
  rw [parse?, h.tokens_eq, foldl_tokensOf]
  rfl

theorem parse?_compact {j : Json} (h : WellFormed j) : parse? (compact j) = some j :=
  parse?_of_spells (spells_compact h)

theorem parse?_pretty {j : Json} (h : WellFormed j) : parse? (pretty j) = some j :=
  parse?_of_spells (spells_prettyAt h 0)

end PlotLisp.Json
