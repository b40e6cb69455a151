/-
  PlotLisp.Proofs.Json.Numerals
  ──────────────────────────────────────
  **NUMERALS ARE READ AS THEY ARE WRITTEN.**

  A numeral is well formed if each of its parts is made of digits and no part is
  missing (`WellFormed`).

    • the characters of a well-formed numeral are a word, and that word is
      the numeral again (`ofWord?_chars`);
    • every numeral that is written for a double is well formed
      (`wellFormed_of_ofFloat?`).  What this comes to is that the digits chosen
      for a double other than zero do not start with a zero: zero itself never
      reads back as that double.
-/
import PlotLisp.Json.Numeral
import PlotLisp.Proofs.Number.Decimals
import PlotLisp.Proofs.Source.Numbers

namespace PlotLisp

open Source.Grammar (Digits NoDigit takeWhile_digits dropWhile_digits)

/-! ## §1. Well-formed numerals. -/

namespace Numeral

/-- Each part is made of digits, and none is missing. -/
structure WellFormed (n : Numeral) : Prop where
  isWhole : isWhole n.whole = true
  whole : Digits n.whole
  fraction : Digits n.fraction
  exponent : ∀ negative digits, n.exponent = some (negative, digits) → digits ≠ [] ∧ Digits digits

/-- The characters after the whole part. -/
def exponentChars (n : Numeral) : List Char :=
  match n.exponent with
  | none => []
  | some (negative, digits) => 'e' :: (if negative then '-' else '+') :: digits

theorem chars_eq (n : Numeral) :
    n.chars = (if n.negative then ['-'] else []) ++ n.whole
      ++ (if n.fraction.isEmpty then [] else '.' :: n.fraction) ++ n.exponentChars := rfl

variable {n : Numeral}

theorem isWhole_ne_nil {digits : List Char} (h : isWhole digits = true) : digits ≠ [] := by
  rintro rfl
  exact absurd h (by decide)

/-! ## §2. Reading a numeral back. -/

theorem exponent?_exponentChars (h : n.WellFormed) : exponent? n.exponentChars = some n.exponent := by
  unfold exponentChars
  split
  next he => rw [he]; rfl
  next negative digits he =>
    obtain ⟨hne, hdigits⟩ := h.exponent negative digits he
    have hall : digits.all Char.isDigit = true := List.all_eq_true.mpr hdigits
    cases negative <;> simp [exponent?, takeSign, he, hne, hall]

/-- The exponent starts with its mark. -/
theorem exponentChars_head : ∀ c ∈ n.exponentChars.head?, c = 'e' := by
  intro c hc
  unfold exponentChars at hc
  split at hc
  next => simp at hc
  next => exact (by simpa using hc : 'e' = c).symm

theorem noDigit_exponentChars : NoDigit n.exponentChars := fun c hc => by
  rw [exponentChars_head c hc]
  rfl

/-- The point with the fraction, and what follows. -/
theorem takeFraction_pointed (h : n.WellFormed) :
    takeFraction ((if n.fraction.isEmpty then [] else '.' :: n.fraction) ++ n.exponentChars)
      = (n.fraction, n.exponentChars) := by
  by_cases hempty : n.fraction = []
  · rw [hempty]
    show takeFraction n.exponentChars = ([], n.exponentChars)
    unfold takeFraction
    split
    next rest he =>
      have hpoint := exponentChars_head (n := n) '.' (by rw [he]; rfl)
      exact absurd hpoint (by decide)
    next => rfl
  · rw [if_neg (by simpa using hempty)]
    show ((n.fraction ++ n.exponentChars).takeWhile _, (n.fraction ++ n.exponentChars).dropWhile _) = _
    rw [takeWhile_digits h.fraction noDigit_exponentChars,
      dropWhile_digits h.fraction noDigit_exponentChars]

theorem noDigit_pointed :
    NoDigit ((if n.fraction.isEmpty then [] else '.' :: n.fraction) ++ n.exponentChars) := by
  split_ifs
  · exact noDigit_exponentChars
  · rintro c hc
    obtain rfl : '.' = c := by simpa using hc
    rfl

/-- A whole part has a digit for its first character. -/
theorem WellFormed.whole_cons (h : n.WellFormed) :
    ∃ d rest, n.whole = d :: rest ∧ d.isDigit = true := by
  obtain ⟨d, rest, hd⟩ := List.exists_cons_of_ne_nil (isWhole_ne_nil h.isWhole)
  exact ⟨d, rest, hd, h.whole d (by simp [hd])⟩

/-- The numeral of a word behind its sign. -/
def ofUnsigned? (negative : Bool) (rest : List Char) : Option Numeral :=
  let whole := rest.takeWhile Char.isDigit
  let rest := rest.dropWhile Char.isDigit
  let (fraction, tail) := takeFraction rest
  if !Numeral.isWhole whole || (rest.head? == some '.' && fraction.isEmpty) then none
  else (exponent? tail).map fun exponent => ⟨negative, whole, fraction, exponent⟩

theorem ofWord?_minus (rest : List Char) : ofWord? ('-' :: rest) = ofUnsigned? true rest := rfl

theorem ofWord?_digit {d : Char} (hd : d.isDigit = true) (rest : List Char) :
    ofWord? (d :: rest) = ofUnsigned? false (d :: rest) := by
  have hminus : d ≠ '-' := by rintro rfl; exact absurd hd (by decide)
  unfold ofWord?
  split
  next h =>
    split at h
    next hd' => injection hd' with hd' _; exact absurd hd' hminus
    next => obtain ⟨rfl, rfl⟩ := Prod.mk.inj h; rfl

/-- What stands behind the sign is read part by part. -/
theorem ofUnsigned?_parts (h : n.WellFormed) :
    ofUnsigned? n.negative (n.whole ++ ((if n.fraction.isEmpty then [] else '.' :: n.fraction)
      ++ n.exponentChars)) = some n := by
  have hpoint : ∀ {text : List Char},
      text = (if n.fraction.isEmpty then [] else '.' :: n.fraction) ++ n.exponentChars →
      (text.head? == some '.' && n.fraction.isEmpty) = false := by
    rintro text rfl
    by_cases hempty : n.fraction.isEmpty = true
    · have hhead : n.exponentChars.head? ≠ some '.' := fun hc =>
        absurd (exponentChars_head '.' hc) (by decide)
      simp [hempty, hhead]
    · simp [hempty]
  simp only [ofUnsigned?, takeWhile_digits h.whole noDigit_pointed,
    dropWhile_digits h.whole noDigit_pointed, takeFraction_pointed h, hpoint rfl, h.isWhole,
    exponent?_exponentChars h]
  rfl

/-- The characters of a numeral spell it. -/
theorem ofWord?_chars (h : n.WellFormed) : ofWord? n.chars = some n := by
  obtain ⟨d, rest, hwhole, hd⟩ := h.whole_cons
  have hparts := ofUnsigned?_parts h
  rw [chars_eq, List.append_assoc, List.append_assoc]
  cases hnegative : n.negative with
  | true =>
    rw [hnegative] at hparts
    exact (ofWord?_minus _).trans hparts
  | false =>
    rw [hnegative, hwhole] at hparts
    rw [hwhole]
    exact (ofWord?_digit hd _).trans hparts

/-- A numeral starts with a digit or a minus sign. -/
theorem WellFormed.chars_cons (h : n.WellFormed) :
    ∃ c rest, n.chars = c :: rest ∧ (c = '-' ∨ c.isDigit = true) := by
  obtain ⟨d, rest, hwhole, hd⟩ := h.whole_cons
  rw [chars_eq, hwhole]
  cases n.negative with
  | true => exact ⟨'-', _, rfl, .inl rfl⟩
  | false => exact ⟨d, _, rfl, .inr hd⟩

/-- Digits, signs, points and marks make up a numeral. -/
theorem WellFormed.of_mem_chars (h : n.WellFormed) {c : Char} (hc : c ∈ n.chars) :
    c.isDigit = true ∨ c ∈ ['-', '+', '.', 'e'] := by
  rw [chars_eq] at hc
  simp only [List.mem_append] at hc
  rcases hc with ((hc | hc) | hc) | hc
  · split_ifs at hc <;> simp_all
  · exact .inl (h.whole c hc)
  · split_ifs at hc
    · simp at hc
    · rcases List.mem_cons.mp hc with rfl | hc
      · simp
      · exact .inl (h.fraction c hc)
  · unfold exponentChars at hc
    split at hc
    next => simp at hc
    next negative digits he =>
      rcases List.mem_cons.mp hc with rfl | hc
      · simp
      · rcases List.mem_cons.mp hc with rfl | hc
        · split_ifs <;> simp
        · exact .inl ((h.exponent negative digits he).2 c hc)

end Numeral

/-! ## §3. The digits that are chosen for a double. -/

/-- A double other than zero is above its half gap, so zero does not read back as
it. -/
theorem readsBack_zero {m : Nat} (hm : 0 < m) (q : Int) : readsBack m q 0 = false := by
  have hgap : gapBelow m q < Binary.magnitude m q := by
    have hone : (1 : Rat) ≤ m := mod_cast hm
    have hpow : (0 : Rat) < 2 ^ q := by positivity
    have hm' : (2 : Rat) ^ q ≤ m * 2 ^ q := le_mul_of_one_le_left hpow.le hone
    unfold gapBelow Binary.magnitude
    split_ifs
    · exact lt_of_lt_of_le (zpow_lt_zpow_right₀ (by norm_num) (by omega)) hm'
    · exact lt_of_lt_of_le (zpow_lt_zpow_right₀ (by norm_num) (by omega)) hm'
  have hlow : 0 < Binary.magnitude m q - gapBelow m q := by linarith
  have hhigh : 0 < Binary.magnitude m q + gapAbove q := by
    have : (0 : Rat) < gapAbove q := by unfold gapAbove; positivity
    have : (0 : Rat) ≤ Binary.magnitude m q := by unfold Binary.magnitude; positivity
    linarith
  simp [readsBack, hlow.ne, hhigh.ne, not_lt.mpr hlow.le]

/-- The nearer of two neighbours is one of them. -/
theorem nearer_eq (tie : TieRule) (t : Rat) (low : Nat) :
    nearer tie t low = low ∨ nearer tie t low = low + 1 := by
  unfold nearer
  dsimp only
  split_ifs
  · exact .inl rfl
  · exact .inr rfl
  · cases tie
    · exact .inr rfl
    · exact .inl rfl
  · cases tie <;> exact .inr rfl

/-- A chosen point of a grid reads back, so it is not zero. -/
theorem leading_gridPoint? {tie : TieRule} {m : Nat} {q : Int} {n : Nat} {d : Decimal} (hm : 0 < m)
    (h : gridPoint? tie m q n = some d) : Decimal.Leading d.digits := by
  unfold gridPoint? at h
  dsimp only at h
  set shift := (n : Int) - 1 - orderOf (Binary.magnitude m q)
  set t := Binary.magnitude m q * (10 : Rat) ^ shift
  obtain ⟨c, hc, hd⟩ := Option.map_eq_some_iff.mp h
  -- whichever neighbour is chosen, it reads back
  have hfits : readsBack m q ((c : Rat) * (10 : Rat) ^ (-shift)) = true := by
    split at hc
    next hlow hhigh =>
      obtain rfl : nearer tie t t.floor.toNat = c := by simpa using hc
      rcases nearer_eq tie t t.floor.toNat with hn | hn <;> rw [hn] <;> assumption
    next hlow _ =>
      obtain rfl : t.floor.toNat = c := by simpa using hc
      exact hlow
    next _ hhigh =>
      obtain rfl : t.floor.toNat + 1 = c := by simpa using hc
      exact hhigh
    next => simp at hc
  -- and zero does not
  have hpos : 0 < c := by
    rcases Nat.eq_zero_or_pos c with rfl | hpos
    · simp [readsBack_zero hm] at hfits
    · exact hpos
  subst hd
  split_ifs
  · exact ⟨by simp [Digits], '1', [], rfl, by decide⟩
  · exact Decimal.leading_trimZeros (Decimal.leading_digitsOf hpos)

theorem leading_shortest {tie : TieRule} {m : Nat} {q : Int} (hm : 0 < m) :
    Decimal.Leading (shortest tie m q).digits := by
  unfold shortest
  split
  next d h =>
    obtain ⟨n, -, hn⟩ := List.exists_of_findSome?_eq_some h
    exact leading_gridPoint? hm hn
  next =>
    refine Decimal.leading_significant (by omega) ?_
    have : (0 : Rat) < m := mod_cast hm
    unfold Binary.magnitude
    positivity

/-! ## §4. Written numerals. -/

namespace Numeral

theorem digits_zeros (n : Nat) : Digits (List.replicate n '0') := by
  intro c hc
  rw [List.eq_of_mem_replicate hc]
  rfl

theorem isWhole_of_head {digits : List Char} {d : Char} (h : digits.head? = some d) (hd : d ≠ '0') :
    isWhole digits = true := by
  obtain ⟨rest, rfl⟩ := List.head?_eq_some_iff.mp h
  simp [isWhole, hd]

/-- The numeral of digits that start as they should is well formed. -/
theorem wellFormed_ofDecimal (negative : Bool) {d : Decimal} (h : Decimal.Leading d.digits) :
    (ofDecimal negative d).WellFormed := by
  obtain ⟨c, rest, hdigits, hc⟩ := h.head
  unfold ofDecimal
  split_ifs
  · -- plain notation
    have hfraction : ∀ {digits : List Char}, Digits digits →
        Digits (if digits.isEmpty then ['0'] else digits) := by
      intro digits hdigits
      split_ifs
      · exact digits_zeros 1
      · exact hdigits
    unfold Decimal.split
    split_ifs
    · refine ⟨rfl, digits_zeros 1, hfraction ?_, fun _ _ he => by simp at he⟩
      exact List.forall_mem_append.mpr ⟨digits_zeros _, h.areDigits⟩
    · refine ⟨isWhole_of_head ?_ hc, ?_,
        hfraction fun e he => h.areDigits e (List.mem_of_mem_drop he), fun _ _ he => by simp at he⟩
      · rw [hdigits]
        rfl
      · exact fun e he => List.forall_mem_append.mpr ⟨h.areDigits, digits_zeros _⟩ e
          (List.mem_of_mem_take he)
  · -- one digit, the others after the point, and the order as an exponent
    refine ⟨isWhole_of_head (by rw [hdigits]; rfl) hc,
      fun e he => h.areDigits e (List.mem_of_mem_take he),
      fun e he => h.areDigits e (List.mem_of_mem_drop he), ?_⟩
    rintro negative digits he
    obtain ⟨-, rfl⟩ : _ ∧ Decimal.digitsOf d.order.natAbs = digits := by simpa using he
    exact ⟨Nat.toDigits_ne_nil, Decimal.digits_digitsOf _⟩

/-- Every numeral that is written for a double is well formed. -/
theorem wellFormed_of_ofFloat? {x : Float} {n : Numeral} (h : ofFloat? x = some n) :
    n.WellFormed := by
  unfold ofFloat? at h
  split at h
  next negative m q _ =>
    obtain rfl := Option.some.inj h
    split_ifs with hm
    · exact ⟨rfl, digits_zeros 1, digits_zeros 1, fun _ _ he => by simp at he⟩
    · exact wellFormed_ofDecimal negative (leading_shortest (Nat.pos_of_ne_zero hm))
  next => simp at h

end Numeral

end PlotLisp
