/-
  PlotLisp.Proofs.Number.Significant
  ──────────────────────────────────────
  **NUMBER TEXTS ARE CORRECTLY ROUNDED.**

  The text of a double with `p` significant digits is a numeral, and its exact
  value (`Numeral.exactValue`) is the decimal of `p` digits nearest to the
  double:

    • `exactValue_trimZeros` — zeros dropped at the end of a fraction do not
      count;
    • `exists_scientific`, `exists_fixed` — the two layouts, each as a numeral
      with the value of the chosen digits;
    • `Numeral.IsGeneral p k n` — what the layout of `p` digits at the order
      `k` looks like.

  Plain notation rounds the value a second time.  That the digits come out the
  same is `exists_significand`.
-/
import PlotLisp.Number.Significant
import PlotLisp.Proofs.Json.Numerals
import PlotLisp.Proofs.Number.Finite

namespace PlotLisp

open Source.Grammar (Digits)

/-! ## §1. The exact value of a numeral. -/

namespace Numeral

/-- The number that a numeral spells. -/
def exactValue (n : Numeral) : Rat :=
  (if n.negative then -1 else 1) * digitsValue (n.whole ++ n.fraction)
    * (10 : Rat) ^ (n.power - n.fraction.length)

/-- The numeral with a minus sign, or without one. -/
def withSign (negative : Bool) (n : Numeral) : Numeral := { n with negative := negative }

/-- How `p` digits are laid out at the order `k`.  The exponent has its sign and two digits at
least; the fraction does not end in a zero. -/
structure IsGeneral (p : Nat) (k : Int) (n : Numeral) : Prop where
  wellFormed : n.WellFormed
  trimmed : n.fraction.getLast? ≠ some '0'
  scientific : n.exponent.isSome = true ↔ k < -4 ∨ (p : Int) ≤ k
  exponent : ∀ negative digits, n.exponent = some (negative, digits) →
    2 ≤ digits.length ∧ n.power = k ∧ n.whole.length = 1

variable {n : Numeral}

theorem WellFormed.withSign (h : n.WellFormed) (negative : Bool) :
    (n.withSign negative).WellFormed :=
  ⟨h.isWhole, h.whole, h.fraction, h.exponent⟩

theorem IsGeneral.withSign {p : Nat} {k : Int} (h : n.IsGeneral p k) (negative : Bool) :
    (n.withSign negative).IsGeneral p k :=
  ⟨h.wellFormed.withSign negative, h.trimmed, h.scientific, h.exponent⟩

/-- A minus sign is written in front. -/
theorem chars_withSign (h : n.negative = false) (negative : Bool) :
    (n.withSign negative).chars = if negative then '-' :: n.chars else n.chars := by
  rw [chars_eq, chars_eq, h]
  cases negative <;> rfl

/-- Without a minus sign, a digit stands in front. -/
theorem WellFormed.head_chars (h : n.WellFormed) (hn : n.negative = false) :
    n.chars.head? ≠ some '-' := by
  obtain ⟨d, rest, hwhole, hd⟩ := h.whole_cons
  rw [chars_eq, hn, hwhole]
  intro hhead
  obtain rfl : d = '-' := by simpa using hhead
  exact absurd hd (by decide)

theorem exactValue_withSign (h : n.negative = false) (negative : Bool) :
    (n.withSign negative).exactValue = if negative then -n.exactValue else n.exactValue := by
  unfold exactValue
  rw [h]
  cases negative with
  | true => simp [withSign, power]
  | false => rfl

end Numeral

/-! ## §2. Points and zeros. -/

/-- A point stands before what is left of the fraction. -/
theorem pointed_eq (whole fraction : List Char) :
    Decimal.pointed whole fraction = whole
      ++ (if (Decimal.trimZeros fraction).isEmpty then [] else '.' :: Decimal.trimZeros fraction) := by
  unfold Decimal.pointed
  split
  next h => simp [h]
  next h => rw [if_neg (by simpa using h)]

/-- Zeros at the end of a fraction do not count. -/
theorem exactValue_trimZeros (whole fraction : List Char) (power : Int) :
    (digitsValue (whole ++ Decimal.trimZeros fraction) : Rat)
        * (10 : Rat) ^ (power - (Decimal.trimZeros fraction).length)
      = digitsValue (whole ++ fraction) * (10 : Rat) ^ (power - fraction.length) := by
  obtain ⟨zeros, hsplit⟩ := Decimal.exists_trimZeros fraction
  have hvalue : (digitsValue (whole ++ fraction) : Rat)
      = digitsValue (whole ++ Decimal.trimZeros fraction) * (10 : Rat) ^ (zeros : Int) := by
    conv_lhs => rw [hsplit]
    rw [← List.append_assoc, digitsValue_append, digitsValue_zeros, List.length_replicate,
      zpow_natCast]
    push_cast
    ring
  have hlength : (fraction.length : Int) = (Decimal.trimZeros fraction).length + zeros := by
    conv_lhs => rw [hsplit]
    rw [List.length_append, List.length_replicate, Nat.cast_add]
  rw [hvalue, mul_assoc, ← zpow_add₀ (by norm_num)]
  congr 2
  omega

theorem digitsValue_leftpad (places : Nat) (digits : List Char) :
    digitsValue (digits.leftpad places '0') = digitsValue digits := by
  rw [List.leftpad, digitsValue_append, digitsValue_zeros, Nat.zero_mul, Nat.zero_add]

theorem digits_leftpad {digits : List Char} (h : Digits digits) (places : Nat) :
    Digits (digits.leftpad places '0') :=
  List.forall_mem_append.mpr ⟨Numeral.digits_zeros _, h⟩

/-! ## §3. The two layouts. -/

/-- The digits of an exponent are those of the order, two at least. -/
theorem exponentText_eq (order : Int) :
    ∃ digits, exponentText order = (if order < 0 then '-' else '+') :: digits
      ∧ Digits digits ∧ 2 ≤ digits.length ∧ digitsValue digits = order.natAbs := by
  have hvalue := Decimal.digitsValue_digitsOf order.natAbs
  have hdigits := Decimal.digits_digitsOf order.natAbs
  have hpos := List.length_pos_iff.mpr (Decimal.digitsOf_ne_nil order.natAbs)
  unfold exponentText
  dsimp only
  by_cases hshort : (Decimal.digitsOf order.natAbs).length < 2
  · refine ⟨_, by rw [if_pos hshort], List.forall_mem_cons.mpr ⟨rfl, hdigits⟩, ?_, ?_⟩
    · rw [List.length_cons]
      omega
    · rw [← List.singleton_append, digitsValue_append, hvalue]
      exact (Nat.add_comm _ _).trans (by rw [show digitsValue ['0'] = 0 from rfl, Nat.zero_mul]; rfl)
  · exact ⟨_, by rw [if_neg hshort], hdigits, by omega, hvalue⟩

variable {p : Nat} {r : Rat}

/-- The digits of the significand, one of them before the point. -/
theorem exists_scientific {m : Nat} {k : Int} (hlow : 10 ^ (p - 1) ≤ m) (hp : 0 < p)
    (hhigh : m < 10 ^ p) (hk : isScientific p k = true) :
    ∃ n : Numeral, n.negative = false ∧ n.IsGeneral p k
      ∧ (⟨Decimal.digitsOf m, k⟩ : Decimal).mantissaText ++ 'e' :: exponentText k = n.chars
      ∧ n.exactValue = m * (10 : Rat) ^ (k + 1 - p) := by
  obtain ⟨digits, htext, hdigits, htwo, hvalue⟩ := exponentText_eq k
  have hlength : (Decimal.digitsOf m).length = p := by
    have := Decimal.length_digitsOf hlow (by rwa [Nat.sub_add_cancel hp])
    omega
  obtain ⟨d, rest, hm, hd⟩ := (Decimal.leading_digitsOf (lt_of_lt_of_le (by positivity) hlow)).head
  have hall : Digits (d :: rest) := hm ▸ Decimal.digits_digitsOf m
  have hrest : Digits rest := fun c hc => hall c (List.mem_cons_of_mem _ hc)
  rw [hm, List.length_cons] at hlength
  -- the first digit stands before the point, and zeros at the end are left out
  let n : Numeral := ⟨false, [d], Decimal.trimZeros rest, some (decide (k < 0), digits)⟩
  have hpower : n.power = k := by
    show (if decide (k < 0) = true then -(digitsValue digits : Int) else digitsValue digits) = k
    rw [hvalue]
    by_cases hneg : k < 0
    · rw [if_pos (by simpa using hneg)]
      omega
    · rw [if_neg (by simpa using hneg)]
      omega
  refine ⟨n, rfl, ⟨⟨?_, ?_, Decimal.digits_trimZeros hrest, ?_⟩, Decimal.getLast?_trimZeros rest, ?_,
    ?_⟩, ?_, ?_⟩
  · exact Numeral.isWhole_of_head rfl hd
  · exact fun c hc => hall c (by simp only [n, List.mem_singleton] at hc; simp [hc])
  · rintro negative digits' he
    obtain ⟨-, rfl⟩ := Prod.mk.inj (Option.some.inj he)
    exact ⟨List.ne_nil_of_length_pos (by omega), hdigits⟩
  · simpa [n, isScientific] using hk
  · rintro negative digits' he
    obtain ⟨-, rfl⟩ := Prod.mk.inj (Option.some.inj he)
    exact ⟨htwo, hpower, rfl⟩
  · rw [Decimal.mantissaText, hm, pointed_eq, htext, Numeral.chars_eq]
    by_cases hneg : k < 0 <;> simp [n, Numeral.exponentChars, hneg]
  · unfold Numeral.exactValue
    rw [hpower]
    show 1 * (digitsValue ([d] ++ Decimal.trimZeros rest) : Rat)
      * (10 : Rat) ^ (k - (Decimal.trimZeros rest).length) = _
    rw [one_mul, exactValue_trimZeros, List.singleton_append, ← hm, Decimal.digitsValue_digitsOf]
    congr 2
    omega

/-- Units of the last of `places` decimals, cut at the point and written out, have their value. -/
theorem exactValue_cut (m places : Nat) :
    let fraction := (Decimal.digitsOf (m % 10 ^ places)).leftpad places '0'
    (digitsValue (Decimal.digitsOf (m / 10 ^ places) ++ fraction) : Rat)
        * (10 : Rat) ^ (0 - (fraction.length : Int))
      = m * (10 : Rat) ^ (-(places : Int)) := by
  intro fraction
  rw [digitsValue_append, digitsValue_leftpad, Decimal.digitsValue_digitsOf,
    Decimal.digitsValue_digitsOf]
  rcases Nat.eq_zero_or_pos places with rfl | hplaces
  · -- without decimals the fraction is a zero
    rw [pow_zero, Nat.div_one, Nat.mod_one]
    push_cast
    rw [add_zero, mul_assoc, ← zpow_natCast, ← zpow_add₀ (by norm_num)]
    simp
  · have hlength : fraction.length = places := by
      have := Decimal.length_digitsOf_le hplaces (Nat.mod_lt m (Nat.pow_pos (n := places) (by omega)))
      rw [List.length_leftpad]
      omega
    have hsplit : (m : Rat) = ((m / 10 ^ places * 10 ^ places + m % 10 ^ places : Nat) : Rat) := by
      rw [Nat.div_add_mod']
    rw [hlength, ← hsplit, zero_sub]

theorem isWhole_digitsOf (m : Nat) : Numeral.isWhole (Decimal.digitsOf m) = true := by
  rcases Nat.eq_zero_or_pos m with rfl | hm
  · rfl
  · obtain ⟨d, rest, hdigits, hd⟩ := (Decimal.leading_digitsOf hm).head
    rw [hdigits]
    exact Numeral.isWhole_of_head rfl hd

/-- The whole units before the point, the others after it. -/
theorem exists_fixed {m : Nat} {k : Int}
    (hround : roundHalfEven (r * (10 : Rat) ^ ((p : Int) - 1 - k)) = m)
    (hk : isScientific p k = false) :
    ∃ n : Numeral, n.negative = false ∧ n.IsGeneral p k
      ∧ fixedText ((p : Int) - 1 - k).toNat r = n.chars
      ∧ n.exactValue = m * (10 : Rat) ^ (k + 1 - p) := by
  have horder : ¬ (k < -4 ∨ (p : Int) ≤ k) := by simpa [isScientific] using hk
  obtain ⟨places, hplaces⟩ : ∃ places : Nat, (p : Int) - 1 - k = places :=
    ⟨((p : Int) - 1 - k).toNat, by omega⟩
  set fraction := (Decimal.digitsOf (m % 10 ^ places)).leftpad places '0' with hfraction
  let n : Numeral := ⟨false, Decimal.digitsOf (m / 10 ^ places), Decimal.trimZeros fraction, none⟩
  have hdigits : Digits fraction := digits_leftpad (Decimal.digits_digitsOf _) places
  refine ⟨n, rfl, ⟨⟨isWhole_digitsOf _, Decimal.digits_digitsOf _, Decimal.digits_trimZeros hdigits,
    fun _ _ he => nomatch he⟩, Decimal.getLast?_trimZeros _, ?_, fun _ _ he => nomatch he⟩, ?_, ?_⟩
  · simpa [n] using horder
  · rw [hplaces, zpow_natCast] at hround
    rw [hplaces, Int.toNat_natCast, fixedText, hround, Int.toNat_natCast, Nat.pow_eq, ← hfraction,
      pointed_eq, Numeral.chars_eq]
    simp [n, Numeral.exponentChars]
  · have hplace : k + 1 - (p : Int) = -(places : Int) := by omega
    rw [hplace, ← exactValue_cut]
    show 1 * (digitsValue (Decimal.digitsOf (m / 10 ^ places) ++ Decimal.trimZeros fraction) : Rat)
      * (10 : Rat) ^ (0 - ((Decimal.trimZeros fraction).length : Int)) = _
    rw [one_mul, exactValue_trimZeros]

/-! ## §4. The text of a positive rational. -/

/-- **Chosen digits are laid out with their value.** -/
theorem exists_generalText (hp : 0 < p) (hr : 0 < r) :
    ∃ (n : Numeral) (k : Int), n.negative = false ∧ n.IsGeneral p k ∧ generalText p r = n.chars
      ∧ IsNearest p r n.exactValue ∧ (10 : Rat) ^ k ≤ n.exactValue
      ∧ n.exactValue < (10 : Rat) ^ (k + 1) := by
  obtain ⟨m, hlow, hhigh, hdigits, hround, hnearest⟩ := exists_significand hp hr
  set d := Decimal.significant p r with hd
  -- either layout spells the same whole number of units of the last place
  have hlayout : ∃ n : Numeral, n.negative = false ∧ n.IsGeneral p d.order
      ∧ generalText p r = n.chars ∧ n.exactValue = m * (10 : Rat) ^ (d.order + 1 - p) := by
    unfold generalText
    rw [← hd]
    dsimp only
    cases hk : isScientific p d.order with
    | true =>
      rw [if_pos rfl]
      have hdecimal : d = ⟨Decimal.digitsOf m, d.order⟩ := by rw [← hdigits]
      obtain ⟨n, hn, hgeneral, htext, hvalue⟩ := exists_scientific hlow hp hhigh hk
      exact ⟨n, hn, hgeneral, by rw [← htext, ← hdecimal], hvalue⟩
    | false =>
      rw [if_neg (by simp)]
      exact exists_fixed hround hk
  obtain ⟨n, hn, hgeneral, htext, hvalue⟩ := hlayout
  have hplace : (0 : Rat) < 10 ^ (d.order + 1 - (p : Int)) := by positivity
  have hpow (a : Int) (b : Nat) (hab : a = b + (d.order + 1 - p)) :
      (10 : Rat) ^ a = ((10 ^ b : Nat) : Rat) * 10 ^ (d.order + 1 - (p : Int)) := by
    rw [hab, zpow_add₀ (by norm_num), zpow_natCast]
    push_cast
    rfl
  refine ⟨n, d.order, hn, hgeneral, htext, by rwa [hvalue], ?_, ?_⟩
  · rw [hvalue, hpow d.order (p - 1) (by omega)]
    exact mul_le_mul_of_nonneg_right (mod_cast hlow) hplace.le
  · rw [hvalue, hpow (d.order + 1) p (by omega)]
    exact mul_lt_mul_of_pos_right (mod_cast hhigh) hplace

/-! ## §5. The text of a double. -/

/-- What is written for a finite double. -/
theorem significantText_of_finite {x : Float} {negative : Bool} {m : Nat} {q : Int}
    (h : Binary.ofFloat x = .finite negative m q) (precision : Nat) :
    (significantText x precision).toList
      = (if negative then ['-'] else [])
        ++ (if m = 0 then ['0'] else generalText (max precision 1) (Binary.magnitude m q)) := by
  unfold significantText
  rw [h]
  dsimp only
  rw [String.toList_ofList]
  cases negative <;> rfl

theorem magnitude_pos {m : Nat} (hm : m ≠ 0) (q : Int) : 0 < Binary.magnitude m q := by
  have : (0 : Rat) < m := mod_cast Nat.pos_of_ne_zero hm
  unfold Binary.magnitude
  positivity

/-- Every finite double is written as a numeral. -/
theorem exists_significantText {x : Float} (hx : x.isFinite = true) (precision : Nat) :
    ∃ n : Numeral, n.WellFormed ∧ (significantText x precision).toList = n.chars := by
  have hsome : Numeral.ofFloat? x ≠ none := fun h => by
    rw [Numeral.ofFloat?_eq_none_iff, hx] at h
    cases h
  cases hb : Binary.ofFloat x with
  | nan => exact absurd (by simp [Numeral.ofFloat?, hb]) hsome
  | infinite negative => exact absurd (by simp [Numeral.ofFloat?, hb]) hsome
  | finite negative m q =>
    obtain ⟨n, hn, hwell, htext⟩ : ∃ n : Numeral, n.negative = false ∧ n.WellFormed
        ∧ (if m = 0 then ['0'] else generalText (max precision 1) (Binary.magnitude m q))
          = n.chars := by
      split_ifs with hm
      · exact ⟨⟨false, ['0'], [], none⟩, rfl,
          ⟨rfl, Numeral.digits_zeros 1, Numeral.digits_zeros 0, fun _ _ he => by cases he⟩, rfl⟩
      · obtain ⟨n, k, hn, hgeneral, htext, -⟩ :=
          exists_generalText (p := max precision 1) (by omega) (magnitude_pos hm q)
        exact ⟨n, hn, hgeneral.wellFormed, htext⟩
    refine ⟨n.withSign negative, hwell.withSign negative, ?_⟩
    rw [significantText_of_finite hb, htext, n.chars_withSign hn]
    cases negative <;> rfl

/-- **THE TEXT OF A DOUBLE IS CORRECTLY ROUNDED.**  It spells the one decimal of `p` digits that is
nearest to the exact value of the double, ties going to the even last digit, in the layout that its
order `k` asks for.  A minus sign is written for what is negative, and for nothing else. -/
theorem significantText_is_correctly_rounded (precision : Nat) {x : Float} {v : Rat}
    (hx : (Binary.ofFloat x).value? = some v) (hv : v ≠ 0) :
    ∃ (r : Rat) (k : Int) (n : Numeral),
      (∀ r', IsNearest (max precision 1) v r' ↔ r' = r)
        ∧ (10 : Rat) ^ k ≤ |r| ∧ |r| < (10 : Rat) ^ (k + 1)
        ∧ (significantText x precision).toList = n.chars ∧ n.exactValue = r
        ∧ n.IsGeneral (max precision 1) k
        ∧ ((significantText x precision).toList.head? = some '-' ↔ v < 0) := by
  cases hb : Binary.ofFloat x with
  | nan => simp [hb, Binary.value?] at hx
  | infinite negative => simp [hb, Binary.value?] at hx
  | finite negative m q =>
    have hvalue : (if negative then -Binary.magnitude m q else Binary.magnitude m q) = v := by
      simpa [hb, Binary.value?] using hx
    have hm : m ≠ 0 := by
      rintro rfl
      refine hv (hvalue.symm.trans ?_)
      simp [Binary.magnitude]
    have hpos := magnitude_pos hm q
    obtain ⟨n, k, hn, hgeneral, htext, hnearest, hlow, hhigh⟩ :=
      exists_generalText (p := max precision 1) (by omega) hpos
    -- rounding does not look at the sign, so it may be put before the digits afterwards
    have hexact := n.exactValue_withSign hn negative
    have hnearest' : IsNearest (max precision 1) v (n.withSign negative).exactValue := by
      rw [hexact, ← hvalue]
      cases negative with
      | true => exact hnearest.neg
      | false => exact hnearest
    have habs : |(n.withSign negative).exactValue| = n.exactValue := by
      have hnonneg : 0 ≤ n.exactValue := le_trans (by positivity) hlow
      rw [hexact]
      cases negative with
      | true => rw [if_pos rfl, abs_neg, abs_of_nonneg hnonneg]
      | false => exact abs_of_nonneg hnonneg
    have hchars : (significantText x precision).toList = (n.withSign negative).chars := by
      rw [significantText_of_finite hb, if_neg hm, htext, n.chars_withSign hn]
      cases negative <;> rfl
    refine ⟨(n.withSign negative).exactValue, k, n.withSign negative, fun r' => ⟨?_, ?_⟩,
      by rwa [habs], by rwa [habs], hchars, rfl, hgeneral.withSign negative, ?_⟩
    · exact hnearest'.unique
    · rintro rfl
      exact hnearest'
    · rw [hchars, n.chars_withSign hn, ← hvalue]
      cases negative with
      | true => simpa using hpos
      | false => simpa [hgeneral.wellFormed.head_chars hn] using hpos.le

/-- Rounding 9.96875 to two digits carries into the next decade, and plain notation still has room
for it. -/
theorem significantText_is_correctly_rounded_with_carry :
    (Binary.ofFloat 9.96875).value? = some (319 / 32) ∧ (319 / 32 : Rat) ≠ 0
      ∧ (significantText 9.96875 2).toList = ['1', '0']
      ∧ ∃ (r : Rat) (k : Int) (n : Numeral),
        (∀ r', IsNearest 2 (319 / 32) r' ↔ r' = r)
          ∧ (10 : Rat) ^ k ≤ |r| ∧ |r| < (10 : Rat) ^ (k + 1)
          ∧ (significantText 9.96875 2).toList = n.chars ∧ n.exactValue = r
          ∧ n.IsGeneral 2 k
          ∧ ((significantText 9.96875 2).toList.head? = some '-' ↔ (319 / 32 : Rat) < 0) := by
  have hx : (Binary.ofFloat 9.96875).value? = some (319 / 32) := by decide +kernel
  have hv : (319 / 32 : Rat) ≠ 0 := by norm_num
  exact ⟨hx, hv, by decide +kernel, significantText_is_correctly_rounded 2 hx hv⟩

end PlotLisp
