/-
  PlotLisp.Proofs.Source.Numbers
  ──────────────────────────────────────
  **READING NUMBER WORDS.**

  `readNumber?` cuts a word from the left, as far as each part goes.  It
  reads exactly the number words of the grammar, with the grammar's value:

    • each cut is a part of the grammar (`sign_takeSign`,
      `fraction_takeFraction`, `exponent_readExponent?`);
    • a part followed by what may follow it is cut off whole, since no part
      starts with a character that could lengthen the one before it;
    • a word that is no number and starts like one is no symbol either.
-/
import Mathlib.Data.List.TakeWhile
import PlotLisp.Proofs.Number.Conversion
import PlotLisp.Proofs.Source.Grammar

namespace PlotLisp.Source.Grammar

/-! ## §1. Digits at the front. -/

/-- No digit stands at the front. -/
def NoDigit (text : List Char) : Prop := ∀ c ∈ text.head?, c.isDigit = false

/-- What is cut off in front holds digits only. -/
theorem digits_takeWhile (text : List Char) : Digits (text.takeWhile Char.isDigit) :=
  fun _ hd => List.mem_takeWhile_imp hd

/-- Digits are cut off as far as they go. -/
theorem takeWhile_digits {ds text : List Char} (hds : Digits ds) (ht : NoDigit text) :
    (ds ++ text).takeWhile Char.isDigit = ds := by
  rw [List.takeWhile_append_of_pos hds]
  cases text with
  | nil => simp
  | cons c text =>
    have hc : c.isDigit = false := ht c rfl
    rw [List.takeWhile_cons_of_neg (by simp [hc]), List.append_nil]

/-- What follows the digits is left over, whole. -/
theorem dropWhile_digits {ds text : List Char} (hds : Digits ds) (ht : NoDigit text) :
    (ds ++ text).dropWhile Char.isDigit = text := by
  rw [List.dropWhile_append_of_pos hds]
  cases text with
  | nil => rfl
  | cons c text =>
    have hc : c.isDigit = false := ht c rfl
    rw [List.dropWhile_cons_of_neg (by simp [hc])]

/-! ## §2. Signs. -/

/-- What is cut off in front is a sign or nothing. -/
theorem sign_takeSign (text : List Char) :
    ∃ sign, Sign sign (takeSign text).1 ∧ text = sign ++ (takeSign text).2 := by
  unfold takeSign
  split
  · exact ⟨['-'], .minus, rfl⟩
  · exact ⟨['+'], .plus, rfl⟩
  · exact ⟨[], .none, rfl⟩

/-- A sign before a digit is cut off whole. -/
theorem takeSign_append {sign : List Char} {negative : Bool} {d : Char} {rest : List Char}
    (hs : Sign sign negative) (hd : d.isDigit = true) :
    takeSign (sign ++ d :: rest) = (negative, d :: rest) := by
  cases hs with
  | none =>
    -- a digit is no sign itself
    show takeSign (d :: rest) = (false, d :: rest)
    unfold takeSign
    split
    next h => injection h with h; subst h; exact absurd hd (by decide)
    next h => injection h with h; subst h; exact absurd hd (by decide)
    next => rfl
  | plus => rfl
  | minus => rfl

/-- The first one or two characters tell whether a word starts like a number. -/
theorem numberLike_iff (word : List Char) : NumberLike word ↔ startsLikeNumber word = true := by
  constructor
  · intro h
    cases h with
    | intro hs hd => simp [startsLikeNumber, takeSign_append hs hd, hd]
  · intro h
    obtain ⟨sign, hs, hw⟩ := sign_takeSign word
    unfold startsLikeNumber at h
    split at h
    next d rest heq =>
      rw [hw, heq]
      exact .intro hs h
    next => exact absurd h (by decide)

/-! ## §3. Fractions. -/

/-- An exponent or nothing: what may follow a fraction. -/
theorem Exponent.head {text : List Char} {n : Int} (h : Exponent text n) :
    ∀ c ∈ text.head?, c ∈ ['e', 'E'] := by
  intro c hc
  cases h with
  | none => simp at hc
  | mark he =>
    obtain rfl : _ = c := by simpa using hc
    exact he

/-- An exponent does not lengthen the digits before it. -/
theorem Exponent.noDigit {text : List Char} {n : Int} (h : Exponent text n) : NoDigit text := by
  intro c hc
  have := h.head c hc
  simp only [List.mem_cons, List.not_mem_nil, or_false] at this
  rcases this with rfl | rfl <;> decide

/-- A point and its digits are cut off, or nothing is. -/
theorem fraction_takeFraction (text : List Char) :
    ∃ fraction, Fraction fraction (takeFraction text).1
      ∧ text = fraction ++ (takeFraction text).2 := by
  unfold takeFraction
  split
  next rest =>
    refine ⟨'.' :: rest.takeWhile Char.isDigit, .point (digits_takeWhile rest), ?_⟩
    rw [List.cons_append, List.takeWhile_append_dropWhile]
  next => exact ⟨[], .none, rfl⟩

/-- A fraction before an exponent is cut off whole. -/
theorem takeFraction_append {fraction decimals exponent : List Char} {n : Int}
    (hf : Fraction fraction decimals) (he : Exponent exponent n) :
    takeFraction (fraction ++ exponent) = (decimals, exponent) := by
  cases hf with
  | none =>
    show takeFraction exponent = ([], exponent)
    unfold takeFraction
    split
    next rest =>
      -- an exponent does not start with a point
      have := he.head '.' rfl
      simp at this
    next => rfl
  | point hd =>
    show ((decimals ++ exponent).takeWhile _, (decimals ++ exponent).dropWhile _) = _
    rw [takeWhile_digits hd he.noDigit, dropWhile_digits hd he.noDigit]

/-! ## §4. Exponents. -/

/-- What is read as an exponent is one, up to its last character. -/
theorem exponent_readExponent? {text : List Char} {n : Int} (h : readExponent? text = some n) :
    Exponent text n := by
  cases text with
  | nil =>
    injection h with h
    subst h
    exact .none
  | cons mark rest =>
    obtain ⟨sign, hs, hr⟩ := sign_takeSign rest
    simp only [readExponent?] at h
    split at h
    next hm =>
      split at h
      next => exact absurd h (by simp)
      next hd =>
        injection h with h
        simp only [Bool.or_eq_true, List.isEmpty_iff, Bool.not_eq_true', not_or,
          Bool.not_eq_false, List.all_eq_true] at hd
        rw [hr, ← h, digitsValue_eq]
        exact .mark (by simpa using hm) hs hd.1 hd.2
    next => exact absurd h (by simp)

/-- Every exponent is read, with its sign and value. -/
theorem readExponent?_of_exponent {text : List Char} {n : Int} (h : Exponent text n) :
    readExponent? text = some n := by
  cases h with
  | none => rfl
  | @mark e sign negative digits he hs hne hd =>
    have hm : (e = 'e' || e = 'E') = true := by simpa using he
    have ht : takeSign (sign ++ digits) = (negative, digits) := by
      cases digits with
      | nil => exact absurd rfl hne
      | cons d ds => exact takeSign_append hs (hd d List.mem_cons_self)
    have hall : (digits.isEmpty || !digits.all Char.isDigit) = false := by
      simp only [Bool.or_eq_false_iff, List.isEmpty_eq_false_iff, Bool.not_eq_false',
        List.all_eq_true]
      exact ⟨hne, hd⟩
    show readExponent? (e :: (sign ++ digits)) = _
    simp only [readExponent?, hm, ht, hall, if_true, Bool.false_eq_true, if_false, digitsValue_eq]

/-! ## §5. Number words. -/

/-- What is read as a number is one, and its value is the nearest double. -/
theorem number_of_readNumber? {word : List Char} {x : Float} (h : readNumber? word = some x) :
    Number word x := by
  obtain ⟨sign, hs, hw⟩ := sign_takeSign word
  obtain ⟨fraction, hf, hr⟩ :=
    fraction_takeFraction ((takeSign word).2.dropWhile Char.isDigit)
  simp only [readNumber?] at h
  split at h
  next => exact absurd h (by simp)
  next hne =>
    obtain ⟨n, hn, rfl⟩ := Option.map_eq_some_iff.mp h
    have hsplit : word = sign ++ (takeSign word).2.takeWhile Char.isDigit ++ fraction
        ++ (takeFraction ((takeSign word).2.dropWhile Char.isDigit)).2 := by
      rw [List.append_assoc, ← hr, List.append_assoc, List.takeWhile_append_dropWhile]
      exact hw
    have hvalue := isNearestDouble_signed (takeSign word).1
      (digitsValue ((takeSign word).2.takeWhile Char.isDigit
        ++ (takeFraction ((takeSign word).2.dropWhile Char.isDigit)).1))
      (n - (takeFraction ((takeSign word).2.dropWhile Char.isDigit)).1.length)
    have key := Number.intro hs (fun h => hne (by rw [h]; rfl)) (digits_takeWhile _) hf
      (exponent_readExponent? hn) (digitsValue_eq _ ▸ hvalue)
    rw [← hsplit] at key
    rwa [digitsValue_eq]

/-- Every number word is read, and no other double can be its value. -/
theorem readNumber?_of_number {word : List Char} {x : Float} (h : Number word x) :
    readNumber? word = some x := by
  cases h with
  | @intro sign negative whole fraction decimals exponent _ n hs hne hw hf he hx =>
    obtain ⟨d, ds, rfl⟩ : ∃ d ds, whole = d :: ds := List.exists_cons_of_ne_nil hne
    -- what follows the whole part starts with a point or a mark
    have hrest : NoDigit (fraction ++ exponent) := by
      cases hf with
      | none => exact he.noDigit
      | point =>
        intro c hc
        obtain rfl : '.' = c := by simpa using hc
        decide
    have hsign : takeSign (sign ++ (d :: ds) ++ fraction ++ exponent)
        = (negative, (d :: ds) ++ (fraction ++ exponent)) := by
      rw [List.append_assoc, List.append_assoc]
      exact takeSign_append hs (hw d List.mem_cons_self)
    unfold readNumber?
    simp only [hsign, takeWhile_digits hw hrest, dropWhile_digits hw hrest,
      takeFraction_append hf he, readExponent?_of_exponent he]
    -- one double only is nearest to the decimal
    have hvalue := isNearestDouble_signed negative (digitsValue (d :: ds ++ decimals))
      (n - decimals.length)
    rw [← digitsValue_eq] at hx
    exact congrArg some (hvalue.unique hx)

/-- **NUMBER WORDS ARE READ AS THEIR VALUE**, and other words as none. -/
theorem readNumber?_eq_some_iff (word : List Char) (x : Float) :
    readNumber? word = some x ↔ Number word x :=
  ⟨number_of_readNumber?, readNumber?_of_number⟩

/-- No number word could be a symbol. -/
theorem Number.numberLike {word : List Char} {x : Float} (h : Number word x) :
    NumberLike word := by
  cases h with
  | @intro sign negative whole fraction decimals exponent _ n hs hne hw =>
    obtain ⟨d, ds, rfl⟩ := List.exists_cons_of_ne_nil hne
    rw [List.append_assoc, List.append_assoc]
    exact .intro hs (hw d List.mem_cons_self)

end PlotLisp.Source.Grammar
