/-
  PlotLisp.Proofs.Number.Decimals
  ──────────────────────────────────────
  **DIGITS, ORDERS AND ROUNDING.**

  The digits of whole numbers, the orders of magnitude of rationals, and the
  decimal of `p` digits that is nearest to a rational:

    • `digitsValue_digitsOf`, `digitsValue_append` — digits and the whole
      number they spell;
    • `pow_orderOf_le`, `lt_pow_orderOf` — the order of a positive rational;
    • `IsNearest p v r` — no decimal of `p` digits is nearer to `v` than `r`,
      and of two equally near ones `r` is the even one;
    • `exists_significand` — the digits that `significant` chooses spell that
      decimal, and rounding the value at its last place once more, now that its
      order is known, changes nothing.
-/
import Mathlib.Algebra.Order.Field.Power
import Mathlib.Data.List.DropRight
import Mathlib.Data.Nat.Cast.Order.Field
import Mathlib.Data.Rat.Floor
import Mathlib.Tactic.Linarith
import Mathlib.Tactic.Positivity
import Mathlib.Tactic.Ring
import PlotLisp.Number.Reading
import PlotLisp.Proofs.Source.Grammar

namespace PlotLisp

open Source.Grammar (Digits)

/-! ## §1. Digits and what they spell. -/

theorem digitsValue_eq (digits : List Char) : digitsValue digits = Nat.ofDigitChars 10 digits 0 :=
  (Nat.ofDigitChars_eq_foldl ..).symm

theorem digitsValue_append (left right : List Char) :
    digitsValue (left ++ right) = digitsValue left * 10 ^ right.length + digitsValue right := by
  simp only [digitsValue_eq, Nat.ofDigitChars_append]
  rw [Nat.ofDigitChars_eq_ofDigitChars_zero, Nat.mul_comm]

@[simp] theorem digitsValue_zeros (n : Nat) : digitsValue (List.replicate n '0') = 0 := by
  rw [digitsValue_eq, Nat.ofDigitChars_replicate_zero]
  simp

/-- The digits are digits, and the first one is there and no zero. -/
structure Decimal.Leading (digits : List Char) : Prop where
  areDigits : Digits digits
  head : ∃ d rest, digits = d :: rest ∧ d ≠ '0'

namespace Decimal

@[simp] theorem digitsValue_digitsOf (n : Nat) : digitsValue (digitsOf n) = n := by
  rw [digitsValue_eq, digitsOf, Nat.ofDigitChars_toDigits (by omega) (by omega)]

theorem digits_digitsOf (n : Nat) : Digits (digitsOf n) := fun _ hd =>
  Nat.isDigit_of_mem_toDigits (by omega) (by omega) hd

theorem digitsOf_ne_nil (n : Nat) : digitsOf n ≠ [] := Nat.toDigits_ne_nil

theorem length_digitsOf_le {n k : Nat} (hk : 0 < k) (hn : n < 10 ^ k) : (digitsOf n).length ≤ k :=
  (Nat.length_toDigits_le_iff (by omega) hk).mpr hn

/-- A number between two powers of ten has the digits of its decade. -/
theorem length_digitsOf {n k : Nat} (hlow : 10 ^ k ≤ n) (hhigh : n < 10 ^ (k + 1)) :
    (digitsOf n).length = k + 1 := by
  have hle := length_digitsOf_le (Nat.succ_pos k) hhigh
  rcases Nat.eq_zero_or_pos k with rfl | hk
  · have := List.length_pos_iff.mpr (digitsOf_ne_nil n)
    omega
  · have hmore : ¬ (digitsOf n).length ≤ k := fun h =>
      absurd ((Nat.length_toDigits_le_iff (by omega) hk).mp h) (by omega)
    omega

theorem leading_digitsOf {n : Nat} (hn : 0 < n) : Leading (digitsOf n) := by
  refine ⟨digits_digitsOf n, ?_⟩
  have hdigit : ∀ d < 10, 0 < d → d.digitChar ≠ '0' := by decide
  induction n using Nat.strong_induction_on with
  | _ n ih =>
    by_cases hsmall : n < 10
    · exact ⟨_, [], Nat.toDigits_of_lt_base hsmall, hdigit n hsmall hn⟩
    · -- the last digit does not matter
      obtain ⟨d, rest, hdigits, hd⟩ := ih (n / 10) (by omega) (by omega)
      refine ⟨d, rest ++ [(n % 10).digitChar], ?_, hd⟩
      have hsplit : digitsOf n = digitsOf (n / 10) ++ [(n % 10).digitChar] :=
        Nat.toDigits_of_base_le (by omega) (by omega)
      rw [hsplit, hdigits, List.cons_append]

/-- Only zeros are dropped. -/
theorem exists_trimZeros (digits : List Char) :
    ∃ zeros, digits = trimZeros digits ++ List.replicate zeros '0' := by
  refine ⟨((digits.reverse.takeWhile (· = '0')).reverse).length, ?_⟩
  have hzeros : (digits.reverse.takeWhile (· = '0')).reverse
      = List.replicate ((digits.reverse.takeWhile (· = '0')).reverse).length '0' := by
    refine List.eq_replicate_of_mem fun c hc => ?_
    simpa using List.mem_takeWhile_imp (List.mem_reverse.mp hc)
  rw [← hzeros, trimZeros, ← List.reverse_append, List.takeWhile_append_dropWhile,
    List.reverse_reverse]

/-- No zero is left at the end. -/
theorem getLast?_trimZeros (digits : List Char) : (trimZeros digits).getLast? ≠ some '0' := by
  intro h
  have hnot := List.head?_dropWhile_not (fun c => decide (c = '0')) digits.reverse
  rw [trimZeros, List.getLast?_reverse] at h
  rw [h] at hnot
  simp at hnot

theorem digits_trimZeros {digits : List Char} (h : Digits digits) : Digits (trimZeros digits) :=
  fun c hc => h c ((List.rdropWhile_prefix _ digits).subset hc)

/-- Zeros at the end are not in front. -/
theorem leading_trimZeros {digits : List Char} (h : Leading digits) : Leading (trimZeros digits) := by
  have hinitial : trimZeros digits <+: digits := List.rdropWhile_prefix _ digits
  obtain ⟨d, rest, rfl, hd⟩ := h.head
  refine ⟨digits_trimZeros h.areDigits, ?_⟩
  have hne : trimZeros (d :: rest) ≠ [] := fun hnil => by
    have hall := List.rdropWhile_eq_nil_iff.mp hnil d (by simp)
    exact hd (by simpa using hall)
  obtain ⟨c, cs, hcs⟩ := List.exists_cons_of_ne_nil hne
  rw [hcs] at hinitial
  obtain rfl : c = d := (List.cons_prefix_cons.mp hinitial).1
  exact ⟨c, cs, hcs, hd⟩

end Decimal

/-! ## §2. Orders of magnitude. -/

theorem digitCount_pos (n : Nat) : 0 < digitCount n := by
  unfold digitCount
  split <;> omega

/-- A number has as many digits as its decade says. -/
theorem pow_digitCount_le {n : Nat} (hn : 0 < n) :
    10 ^ (digitCount n - 1) ≤ n ∧ n < 10 ^ digitCount n := by
  induction n using Nat.strong_induction_on with
  | _ n ih =>
    by_cases hsmall : n < 10
    · rw [digitCount, if_pos hsmall]
      omega
    · obtain ⟨hlow, hhigh⟩ := ih (n / 10) (by omega) (by omega)
      have hstep : digitCount n = digitCount (n / 10) + 1 := by
        rw [digitCount, if_neg hsmall]
      obtain ⟨k, hk⟩ := Nat.exists_eq_add_one.mpr (digitCount_pos (n / 10))
      rw [hstep, hk]
      rw [hk] at hlow hhigh
      simp only [Nat.add_sub_cancel, Nat.pow_succ] at *
      omega

/-- A positive rational is a quotient of positive whole numbers. -/
theorem exists_quotient {r : Rat} (hr : 0 < r) :
    ∃ num : Nat, r.num = num ∧ 0 < num ∧ r = (num : Rat) / r.den := by
  have hnumPos : 0 < r.num := Rat.num_pos.mpr hr
  obtain ⟨num, hnum⟩ : ∃ num : Nat, r.num = num := ⟨r.num.toNat, by omega⟩
  refine ⟨num, hnum, by omega, ?_⟩
  conv_lhs => rw [← Rat.num_div_den r, hnum]
  simp

/-- The order of a positive number is not above it. -/
theorem pow_orderOf_le {r : Rat} (hr : 0 < r) : (10 : Rat) ^ orderOf r ≤ r := by
  have hden : 0 < r.den := r.den_pos
  obtain ⟨num, hnum, hpos, hvalue⟩ := exists_quotient hr
  unfold orderOf
  simp only [hnum, Int.toNat_natCast]
  split_ifs with h
  · -- from one on, the whole part decides
    have hwhole : 0 < num / r.den := Nat.div_pos h hden
    obtain ⟨k, hk⟩ := Nat.exists_eq_add_one.mpr (digitCount_pos (num / r.den))
    have hlow : 10 ^ k ≤ num / r.den := by
      simpa only [hk, Nat.add_sub_cancel] using (pow_digitCount_le hwhole).1
    have horder : ((digitCount (num / r.den) : Nat) : Int) - 1 = (k : Int) := by omega
    rw [horder, zpow_natCast]
    calc (10 : Rat) ^ k ≤ ((num / r.den : Nat) : Rat) := mod_cast hlow
      _ ≤ (num : Rat) / r.den := Nat.cast_div_le
      _ = r := hvalue.symm
  · -- below one, the least whole number not below the inverse does
    set least := (r.den + num - 1) / num with hleast
    have hcover : r.den ≤ num * least := by
      have hdiv : num * least + (r.den + num - 1) % num = r.den + num - 1 := Nat.div_add_mod _ _
      have hmod := Nat.mod_lt (r.den + num - 1) hpos
      omega
    have htwo : 2 ≤ least := (Nat.le_div_iff_mul_le hpos).mpr (by omega)
    have hhigh : least ≤ 10 ^ digitCount (least - 1) := by
      have := (pow_digitCount_le (n := least - 1) (by omega)).2
      omega
    have hbound : (r.den : Rat) ≤ num * 10 ^ digitCount (least - 1) :=
      mod_cast hcover.trans (Nat.mul_le_mul_left num hhigh)
    rw [zpow_neg, zpow_natCast, hvalue, inv_eq_one_div,
      div_le_div_iff₀ (by positivity) (mod_cast hden), one_mul]
    exact hbound

/-- The next order is above it. -/
theorem lt_pow_orderOf {r : Rat} (hr : 0 < r) : r < (10 : Rat) ^ (orderOf r + 1) := by
  have hden : 0 < r.den := r.den_pos
  obtain ⟨num, hnum, hpos, hvalue⟩ := exists_quotient hr
  unfold orderOf
  simp only [hnum, Int.toNat_natCast]
  split_ifs with h
  · -- the whole part reaches the next decade only if the number does
    have hhigh : num / r.den < 10 ^ digitCount (num / r.den) :=
      (pow_digitCount_le (Nat.div_pos h hden)).2
    have hbound : num < 10 ^ digitCount (num / r.den) * r.den :=
      (Nat.div_lt_iff_lt_mul hden).mp hhigh
    rw [Int.sub_add_cancel, zpow_natCast]
    conv_lhs => rw [hvalue]
    rw [div_lt_iff₀ (mod_cast hden)]
    exact mod_cast hbound
  · -- one decade less does not reach the inverse
    set least := (r.den + num - 1) / num with hleast
    have htwo : 2 ≤ least := (Nat.le_div_iff_mul_le hpos).mpr (by omega)
    obtain ⟨k, hk⟩ := Nat.exists_eq_add_one.mpr (digitCount_pos (least - 1))
    have hlow : 10 ^ k ≤ least - 1 := by
      simpa only [hk, Nat.add_sub_cancel] using (pow_digitCount_le (n := least - 1) (by omega)).1
    have hbelow : num * (least - 1) < r.den := by
      have hdiv : num * least ≤ r.den + num - 1 := Nat.mul_div_le _ _
      have hsplit : num * (least - 1) + num = num * least := by
        rw [← Nat.mul_succ]
        congr 1
        omega
      omega
    have hbound : (num : Rat) * 10 ^ k < r.den :=
      mod_cast lt_of_le_of_lt (Nat.mul_le_mul_left num hlow) hbelow
    have horder : -((digitCount (least - 1) : Nat) : Int) + 1 = -(k : Int) := by omega
    rw [horder, zpow_neg, zpow_natCast, hvalue, inv_eq_one_div,
      div_lt_div_iff₀ (mod_cast hden) (by positivity), one_mul]
    exact hbound

/-! ## §3. Rounding to whole numbers. -/

/-- The rounded number is at most one half away, and even if it is one half. -/
theorem roundHalfEven_close (r : Rat) :
    |r - roundHalfEven r| ≤ 1 / 2
      ∧ (|r - roundHalfEven r| = 1 / 2 → Even (roundHalfEven r)) := by
  have hlow : (r.floor : Rat) ≤ r := Rat.floor_le r
  have hhigh : r < (r.floor : Rat) + 1 := by exact_mod_cast Rat.lt_floor_add_one r
  unfold roundHalfEven
  dsimp only
  split_ifs with hless hmore heven
  · -- nearer to the whole part
    have habs : |r - r.floor| = r - r.floor := abs_of_nonneg (by linarith)
    exact ⟨by linarith, fun h => by linarith⟩
  · -- nearer to the next one
    push_cast
    have habs : |r - (r.floor + 1)| = r.floor + 1 - r := by
      rw [abs_of_nonpos (by linarith)]
      ring
    exact ⟨by linarith, fun h => by linarith⟩
  · have habs : |r - r.floor| = r - r.floor := abs_of_nonneg (by linarith)
    exact ⟨by linarith, fun _ => Int.even_iff.mpr heven⟩
  · push_cast
    have habs : |r - (r.floor + 1)| = r.floor + 1 - r := by
      rw [abs_of_nonpos (by linarith)]
      ring
    refine ⟨by linarith, fun _ => Int.even_iff.mpr ?_⟩
    omega

/-- Two whole numbers are one apart at least. -/
theorem one_le_abs_sub {n m : Int} (h : m ≠ n) (r : Rat) : 1 ≤ |r - m| + |r - n| := by
  have hstep : (1 : Rat) ≤ |((m - n : Int) : Rat)| :=
    mod_cast Int.one_le_abs (sub_ne_zero.mpr h)
  calc (1 : Rat) ≤ |((m - n : Int) : Rat)| := hstep
    _ = |(r - n) - (r - m)| := by push_cast; congr 1; ring
    _ ≤ |r - n| + |r - m| := abs_sub _ _
    _ = |r - m| + |r - n| := add_comm _ _

/-- Less than one half away there is one whole number only. -/
theorem roundHalfEven_eq {r : Rat} {n : Int} (h : |r - n| < 1 / 2) : roundHalfEven r = n := by
  by_contra hne
  have := one_le_abs_sub hne r
  have := (roundHalfEven_close r).1
  linarith

/-- No whole number is nearer than the rounded one. -/
theorem roundHalfEven_nearest (r : Rat) (n : Int) : |r - roundHalfEven r| ≤ |r - n| := by
  by_cases hne : n = roundHalfEven r
  · rw [hne]
  · have := one_le_abs_sub hne r
    have := (roundHalfEven_close r).1
    linarith

/-- Where another whole number is as near as the rounded one, it is the next one, and the rounded
one is even. -/
theorem roundHalfEven_tie {r : Rat} {n : Int} (hne : n ≠ roundHalfEven r)
    (htie : |r - n| = |r - roundHalfEven r|) :
    Even (roundHalfEven r) ∧ |(roundHalfEven r : Rat) - n| = 1 := by
  have hapart := one_le_abs_sub hne r
  obtain ⟨hclose, heven⟩ := roundHalfEven_close r
  have hhalf : |r - roundHalfEven r| = 1 / 2 := by linarith
  have hle : |(roundHalfEven r : Rat) - n| ≤ 1 := by
    have := abs_sub_le (roundHalfEven r : Rat) r n
    rw [abs_sub_comm (roundHalfEven r : Rat) r] at this
    linarith
  have hge : (1 : Rat) ≤ |(roundHalfEven r : Rat) - n| := by
    exact_mod_cast Int.one_le_abs (sub_ne_zero.mpr hne.symm)
  exact ⟨heven hhalf, le_antisymm hle hge⟩

/-- **Counted in units, rounding is to the nearest multiple.**  What is no multiple does not matter
as long as it lies below a multiple that the number reaches; a multiple that is as near is one unit
away, and the rounded one is even. -/
theorem roundHalfEven_units {t u r : Rat} (hu : 0 < u)
    (hr : (∃ n : Int, r = n * u) ∨ ∃ c : Int, (c : Rat) ≤ t ∧ r < c * u) :
    |t * u - roundHalfEven t * u| ≤ |t * u - r|
      ∧ (r ≠ roundHalfEven t * u → |t * u - r| = |t * u - roundHalfEven t * u| →
        Even (roundHalfEven t) ∧ |roundHalfEven t * u - r| = u) := by
  have hdist (n : Int) : |t * u - n * u| = |t - n| * u := by
    rw [← sub_mul, abs_mul, abs_of_pos hu]
  have hnearest (n : Int) : |t * u - roundHalfEven t * u| ≤ |t * u - n * u| := by
    rw [hdist, hdist]
    exact mul_le_mul_of_nonneg_right (roundHalfEven_nearest t n) hu.le
  rcases hr with ⟨n, rfl⟩ | ⟨c, hc, hr⟩
  · refine ⟨hnearest n, fun hne htie => ?_⟩
    rw [hdist, hdist] at htie
    obtain ⟨heven, hgap⟩ := roundHalfEven_tie (fun h => hne (by rw [h]))
      (mul_right_cancel₀ hu.ne' htie)
    exact ⟨heven, by rw [← sub_mul, abs_mul, abs_of_pos hu, hgap, one_mul]⟩
  · -- the multiple between them is nearer
    have hreach : (c : Rat) * u ≤ t * u := mul_le_mul_of_nonneg_right hc hu.le
    have hfar : |t * u - roundHalfEven t * u| < |t * u - r| :=
      calc |t * u - roundHalfEven t * u| ≤ |t * u - c * u| := hnearest c
        _ = t * u - c * u := abs_of_nonneg (by linarith)
        _ < t * u - r := by linarith
        _ ≤ |t * u - r| := le_abs_self _
    exact ⟨hfar.le, fun _ htie => absurd htie hfar.ne'⟩

/-- Rounding stays between whole numbers. -/
theorem roundHalfEven_between {r : Rat} {low high : Int} (hlow : (low : Rat) ≤ r)
    (hhigh : r ≤ high) : low ≤ roundHalfEven r ∧ roundHalfEven r ≤ high := by
  obtain ⟨hleft, hright⟩ := abs_le.mp (roundHalfEven_close r).1
  constructor
  · by_contra hless
    have : (roundHalfEven r : Rat) ≤ low - 1 := by
      exact_mod_cast (by omega : roundHalfEven r ≤ low - 1)
    linarith
  · by_contra hmore
    have : (high : Rat) + 1 ≤ roundHalfEven r := by
      exact_mod_cast (by omega : high + 1 ≤ roundHalfEven r)
    linarith

/-! ## §4. The nearest decimal. -/

/-- A decimal of at most `p` digits, `n · 10 ^ j`. -/
def HasDigits (p : Nat) (r : Rat) : Prop :=
  ∃ n j : Int, n.natAbs < 10 ^ p ∧ r = n * (10 : Rat) ^ j

/-- No decimal of at most `p` digits is nearer to `v` than `r`.  Where one is as near, the two
differ by one in some place, and there the last digit of `r` is even. -/
structure IsNearest (p : Nat) (v r : Rat) : Prop where
  hasDigits : HasDigits p r
  nearest : ∀ r', HasDigits p r' → |v - r| ≤ |v - r'|
  even : ∀ r', HasDigits p r' → r' ≠ r → |v - r'| = |v - r| →
    ∃ n j : Int, Even n ∧ r = n * (10 : Rat) ^ j ∧ |r - r'| = (10 : Rat) ^ j

variable {p : Nat} {v r : Rat}

theorem HasDigits.neg (h : HasDigits p r) : HasDigits p (-r) := by
  obtain ⟨n, j, hn, rfl⟩ := h
  exact ⟨-n, j, by rwa [Int.natAbs_neg], by push_cast; ring⟩

theorem abs_neg_sub (v r : Rat) : |-v - r| = |v - -r| := by
  rw [← abs_neg]
  congr 1
  ring

theorem IsNearest.neg (h : IsNearest p v r) : IsNearest p (-v) (-r) := by
  refine ⟨h.hasDigits.neg, fun r' hr' => ?_, fun r' hr' hne htie => ?_⟩
  · rw [abs_neg_sub, abs_neg_sub, neg_neg]
    exact h.nearest (-r') hr'.neg
  · rw [abs_neg_sub, abs_neg_sub, neg_neg] at htie
    have hne' : -r' ≠ r := fun heq => hne (by rw [← heq, neg_neg])
    obtain ⟨n, j, hn, hvalue, hgap⟩ := h.even (-r') hr'.neg hne' htie
    refine ⟨-n, j, hn.neg, by rw [hvalue]; push_cast; ring, ?_⟩
    rw [abs_neg_sub]
    exact hgap

/-- Two decimals cannot both be the even one. -/
theorem IsNearest.unique {r' : Rat} (h : IsNearest p v r) (h' : IsNearest p v r') : r' = r := by
  by_contra hne
  have htie : |v - r'| = |v - r| :=
    le_antisymm (h'.nearest r h.hasDigits) (h.nearest r' h'.hasDigits)
  obtain ⟨n, j, hn, hr, hgap⟩ := h.even r' h'.hasDigits hne htie
  obtain ⟨n', j', hn', hr', hgap'⟩ := h'.even r h.hasDigits (Ne.symm hne) htie.symm
  exact not_even_of_gap (by norm_num) hr hr' hgap hgap' hn hn'

/-- A decimal of `p` digits lies on the grid of the decade that starts at `10 ^ k`, or below
that decade. -/
theorem HasDigits.on_grid (h : HasDigits p r) (k : Int) :
    (∃ m : Int, r = m * (10 : Rat) ^ (k + 1 - p)) ∨ r < (10 : Rat) ^ k := by
  obtain ⟨n, j, hn, rfl⟩ := h
  by_cases hj : k + 1 - (p : Int) ≤ j
  · left
    obtain ⟨d, hd⟩ : ∃ d : Nat, j = (k + 1 - p) + d := ⟨(j - (k + 1 - p)).toNat, by omega⟩
    refine ⟨n * 10 ^ d, ?_⟩
    rw [hd, zpow_add₀ (by norm_num), zpow_natCast]
    push_cast
    ring
  · right
    have hn' : (n : Rat) < 10 ^ (p : Int) := by
      have hlt : n < 10 ^ p := lt_of_le_of_lt Int.le_natAbs (mod_cast hn)
      rw [zpow_natCast]
      exact mod_cast hlt
    calc (n : Rat) * 10 ^ j < 10 ^ (p : Int) * 10 ^ j := by gcongr
      _ = (10 : Rat) ^ ((p : Int) + j) := (zpow_add₀ (by norm_num) _ _).symm
      _ ≤ (10 : Rat) ^ k := zpow_le_zpow_right₀ (by norm_num) (by omega)

/-- The place that the last of `p` digits takes in a decade, and the value counted in units of
it. -/
theorem units_mul_place (p : Nat) (k : Int) (v : Rat) :
    v = v * (10 : Rat) ^ ((p : Int) - 1 - k) * (10 : Rat) ^ (k + 1 - p) := by
  rw [mul_assoc, ← zpow_add₀ (by norm_num)]
  have hzero : ((p : Int) - 1 - k) + (k + 1 - p) = 0 := by omega
  rw [hzero, zpow_zero, mul_one]

/-- Counted in units of its last place, a value has the order that `p` digits have. -/
theorem units_bounds (hp : 0 < p) {k : Int} (hlow : (10 : Rat) ^ k ≤ v)
    (hhigh : v < (10 : Rat) ^ (k + 1)) :
    ((10 ^ (p - 1) : Int) : Rat) ≤ v * (10 : Rat) ^ ((p : Int) - 1 - k)
      ∧ v * (10 : Rat) ^ ((p : Int) - 1 - k) < ((10 ^ p : Int) : Rat) := by
  have hpow : (0 : Rat) < 10 ^ ((p : Int) - 1 - k) := by positivity
  have hscale (a : Int) (b : Nat) (hab : a + ((p : Int) - 1 - k) = b) :
      ((10 ^ b : Int) : Rat) = (10 : Rat) ^ a * (10 : Rat) ^ ((p : Int) - 1 - k) := by
    rw [← zpow_add₀ (by norm_num), hab, zpow_natCast]
    push_cast
    rfl
  rw [hscale k (p - 1) (by omega), hscale (k + 1) p (by omega)]
  exact ⟨mul_le_mul_of_nonneg_right hlow hpow.le, mul_lt_mul_of_pos_right hhigh hpow⟩

/-- The rounded units are a decimal of `p` digits, also where they carry into the next decade. -/
theorem hasDigits_roundHalfEven (hp : 0 < p) {t : Rat} (k : Int)
    (hleast : ((10 ^ (p - 1) : Int) : Rat) ≤ t) (hmost : t < ((10 ^ p : Int) : Rat)) :
    HasDigits p (roundHalfEven t * (10 : Rat) ^ (k + 1 - p)) := by
  obtain ⟨hn, hn'⟩ := roundHalfEven_between hleast hmost.le
  have hfirst : (0 : Int) < 10 ^ (p - 1) := by positivity
  by_cases hcarry : roundHalfEven t = 10 ^ p
  · refine ⟨1, k + 1, Nat.one_lt_pow hp.ne' (by norm_num), ?_⟩
    rw [hcarry]
    push_cast
    rw [one_mul, ← zpow_natCast, ← zpow_add₀ (by norm_num)]
    congr 1
    omega
  · refine ⟨roundHalfEven t, k + 1 - p, ?_, rfl⟩
    have hlt : ((roundHalfEven t).natAbs : Int) < 10 ^ p := by omega
    exact_mod_cast hlt

/-- The first of the decade, counted in units of its last place. -/
theorem first_mul_place (hp : 0 < p) (k : Int) :
    ((10 ^ (p - 1) : Int) : Rat) * (10 : Rat) ^ (k + 1 - p) = (10 : Rat) ^ k := by
  push_cast
  rw [← zpow_natCast, ← zpow_add₀ (by norm_num)]
  congr 1
  omega

/-- **Rounding at the last of `p` places gives the nearest decimal.** -/
theorem isNearest_of_order (hp : 0 < p) {k : Int} (hlow : (10 : Rat) ^ k ≤ v)
    (hhigh : v < (10 : Rat) ^ (k + 1)) :
    IsNearest p v
      (roundHalfEven (v * (10 : Rat) ^ ((p : Int) - 1 - k)) * (10 : Rat) ^ (k + 1 - p)) := by
  obtain ⟨hleast, hmost⟩ := units_bounds hp hlow hhigh
  have hvalue := units_mul_place p k v
  have hdigits := hasDigits_roundHalfEven hp k hleast hmost
  have hpos : (0 : Rat) < (10 : Rat) ^ (k + 1 - p) := by positivity
  set t := v * (10 : Rat) ^ ((p : Int) - 1 - k)
  -- a decimal is counted in units of the last place, or lies below the decade
  have hunits {r' : Rat} (hr' : HasDigits p r') :
      (∃ n : Int, r' = n * (10 : Rat) ^ (k + 1 - p))
        ∨ ∃ c : Int, (c : Rat) ≤ t ∧ r' < c * (10 : Rat) ^ (k + 1 - p) :=
    (hr'.on_grid k).imp_right fun hbelow => ⟨10 ^ (p - 1), hleast, by rwa [first_mul_place hp]⟩
  refine ⟨hdigits, fun r' hr' => ?_, fun r' hr' hne htie => ?_⟩
  · rw [hvalue]
    exact (roundHalfEven_units hpos (hunits hr')).1
  · rw [hvalue] at htie
    obtain ⟨heven, hgap⟩ := (roundHalfEven_units hpos (hunits hr')).2 hne htie
    exact ⟨roundHalfEven t, k + 1 - p, heven, rfl, hgap⟩

/-! ## §5. The chosen digits. -/

/-- A value that carries into the next decade is rounded to the start of that decade in its units
too. -/
theorem roundHalfEven_carry (hp : 0 < p) {t : Rat} (h : roundHalfEven t = 10 ^ p) :
    roundHalfEven (t / 10) = 10 ^ (p - 1) := by
  obtain ⟨hleft, hright⟩ := abs_le.mp (roundHalfEven_close t).1
  have hsplit : ((10 ^ p : Int) : Rat) = 10 * ((10 ^ (p - 1) : Int) : Rat) := by
    obtain ⟨p, rfl⟩ := Nat.exists_eq_add_one.mpr hp
    push_cast
    rw [pow_succ, mul_comm]
  rw [h, hsplit] at hleft hright
  refine roundHalfEven_eq (abs_lt.mpr ⟨?_, ?_⟩) <;> linarith

/-- **The chosen digits spell the nearest decimal.**  Rounding the value once more, at the last
place that is left now that the order of the decimal is known, gives the same digits. -/
theorem exists_significand (hp : 0 < p) (hr : 0 < r) :
    ∃ n : Nat, 10 ^ (p - 1) ≤ n ∧ n < 10 ^ p
      ∧ (Decimal.significant p r).digits = Decimal.digitsOf n
      ∧ roundHalfEven (r * (10 : Rat) ^ ((p : Int) - 1 - (Decimal.significant p r).order)) = n
      ∧ IsNearest p r (n * (10 : Rat) ^ ((Decimal.significant p r).order + 1 - p)) := by
  have hlow := pow_orderOf_le hr
  have hhigh := lt_pow_orderOf hr
  have hnearest := isNearest_of_order hp hlow hhigh
  obtain ⟨hleast, hmost⟩ := units_bounds hp hlow hhigh
  unfold Decimal.significant
  dsimp only
  set k := orderOf r
  set t := r * (10 : Rat) ^ ((p : Int) - 1 - k) with ht
  obtain ⟨hn, hn'⟩ := roundHalfEven_between hleast hmost.le
  have hfirst : (0 : Int) < 10 ^ (p - 1) := by positivity
  obtain ⟨n, hround⟩ : ∃ n : Nat, roundHalfEven t = n := ⟨(roundHalfEven t).toNat, by omega⟩
  have hpow : 10 ^ (p - 1) < 10 ^ p := Nat.pow_lt_pow_right (by norm_num) (by omega)
  rw [hround] at hn hn' hnearest
  rw [hround, Int.toNat_natCast, Nat.pow_eq, Nat.pow_eq]
  split_ifs with hcarry
  · -- the value is rounded to the start of the next decade
    have hagain : r * (10 : Rat) ^ ((p : Int) - 1 - (k + 1)) = t / 10 := by
      have hplace : (p : Int) - 1 - (k + 1) = ((p : Int) - 1 - k) - 1 := by omega
      rw [hplace, zpow_sub_one₀ (by norm_num), ht]
      ring
    refine ⟨10 ^ (p - 1), le_rfl, hpow, rfl, ?_, ?_⟩
    · rw [hagain, roundHalfEven_carry hp (by rw [hround, hcarry]; push_cast; rfl)]
      push_cast
      rfl
    · have hsame : (n : Rat) * (10 : Rat) ^ (k + 1 - (p : Int))
          = ((10 ^ (p - 1) : Nat) : Rat) * (10 : Rat) ^ (k + 1 + 1 - (p : Int)) := by
        rw [hcarry]
        push_cast
        rw [← zpow_natCast, ← zpow_natCast, ← zpow_add₀ (by norm_num), ← zpow_add₀ (by norm_num)]
        congr 1
        omega
      rw [← hsame]
      exact hnearest
  · -- no carry: the order of the decimal is that of the value
    exact ⟨n, mod_cast hn, lt_of_le_of_ne (mod_cast hn') hcarry, rfl, hround, hnearest⟩

/-- The nearest decimal of any length does not start with a zero. -/
theorem Decimal.leading_significant (hp : 0 < p) (hr : 0 < r) :
    Leading (significant p r).digits := by
  obtain ⟨n, hn, -, hdigits, -⟩ := exists_significand hp hr
  rw [hdigits]
  exact leading_digitsOf (lt_of_lt_of_le (by positivity) hn)

end PlotLisp
