import Kusto.Proofs.Number.Numeral
import Mathlib.Data.List.TakeWhile
import Mathlib.Tactic.NormNum.Pow

/-!
# Large integers — what becomes of an integer in binary64

An integer read as a decimal is rounded as the integer itself (`ofDecimal_zero`).  From `2 ^ 63` on
the shortest decimal of a rounded integer is a multiple of a hundred, so that every other integer of
this size is written as another one (`hundred_dvd_of_decimalValue_eq`).  A text of digits is such an
integer or one of 64 bits (`binary64_of_isIntegerText`, `int64_of_isIntegerText`).
-/

namespace Kusto.Number

theorem isInt64_iff {n : ℤ} :
    isInt64 n ↔ -9223372036854775808 ≤ n ∧ n ≤ 9223372036854775807 := by
  unfold isInt64 maxInt64
  simp only [Bool.and_eq_true, decide_eq_true_eq]
  omega

namespace Binary64

/-! ## Decimals without a fraction -/

section Integers

theorem binade_eq : binade = 2 ^ 52 := rfl

theorem pow_mul_one_shiftLeft (k m : ℕ) : 2 ^ k * (1 <<< m) = 2 ^ (k + m) := by
  rw [Nat.one_shiftLeft, pow_add]

/-- A power of two in units. -/
theorem pow_mul_unitsPerOne (k : ℕ) : 2 ^ k * unitsPerOne = 2 ^ (k + 1074) :=
  pow_mul_one_shiftLeft k 1074

theorem unitsPerOne_pos : 0 < unitsPerOne := by decide

/-- A number in units has so many more binary places. -/
theorem le_log2_scaled {k n : ℕ} (h : 2 ^ k ≤ n) : k + 1074 ≤ (n * unitsPerOne).log2 := by
  have hscaled : 2 ^ (k + 1074) ≤ n * unitsPerOne := by
    rw [← pow_mul_unitsPerOne]
    exact Nat.mul_le_mul_right _ h
  have hne : n * unitsPerOne ≠ 0 :=
    Nat.pos_iff_ne_zero.mp (lt_of_lt_of_le (Nat.two_pow_pos _) hscaled)
  exact (Nat.le_log2 hne).mpr hscaled

/-- Beyond the range of exponents nothing is finite. -/
theorem rankLimit_le_nearestRank {k n : ℕ} (hk : 1025 ≤ k) (h : 2 ^ k ≤ n) :
    rankLimit ≤ nearestRank n 1 := by
  have hlog := le_log2_scaled h
  have hshift : 2047 ≤ (n * unitsPerOne / 1).log2 - 52 := by
    rw [Nat.div_one]
    omega
  unfold nearestRank rankLimit
  exact (Nat.mul_le_mul_right binade hshift).trans (Nat.le_add_right _ _)

theorem pow_le_of_lt_decimalLength {k n : ℕ} (hk : 0 < k) (h : k < decimalLength n) :
    10 ^ k ≤ n := by
  by_contra hlt
  have hle := (Nat.length_toDigits_le_iff (by decide) hk).mpr (Nat.lt_of_not_le hlt)
  unfold decimalLength at h
  omega

theorem lt_decimalLength_of_pow_le {k n : ℕ} (hk : 0 < k) (h : 10 ^ k ≤ n) :
    k < decimalLength n := by
  by_contra hle
  have hlt := (Nat.length_toDigits_le_iff (by decide) hk).mp (Nat.le_of_not_lt hle)
  omega

theorem two_pow_le_ten_pow (k : ℕ) : 2 ^ (3 * k) ≤ 10 ^ k := by
  rw [pow_mul]
  exact Nat.pow_le_pow_left (by decide) k

/-- Digits without a fraction and an exponent are rounded as the integer that they denote. -/
theorem ofDecimal_zero (negative : Bool) (n : ℕ) :
    ofDecimal negative n 0 = ofRatio negative n 1 := by
  have hsize : ¬ (0 : ℤ) + decimalLength n < -400 := by omega
  unfold ofDecimal
  dsimp only
  split_ifs with hzero hlarge
  · rcases hzero with rfl | h
    · cases negative <;> decide
    · exact absurd h hsize
  · -- with so many digits the quotient overflows as well
    have hlength : 400 < decimalLength n := by omega
    have hpow := pow_le_of_lt_decimalLength (k := 400) (by decide) hlength
    have hlimit : rankLimit ≤ nearestRank n 1 :=
      rankLimit_le_nearestRank (by decide) ((two_pow_le_ten_pow _).trans hpow)
    unfold ofRatio
    dsimp only
    rw [dif_neg (by omega)]
  · show ofRatio negative (n * 1) 1 = _
    rw [Nat.mul_one]
  · rename_i h
    exact absurd (le_refl 0) h

end Integers

/-! ## Shortest decimals of large numbers -/

section Shortest

theorem div_le_roundDiv (num den : ℕ) : num / den ≤ roundDiv num den := by
  rcases roundDiv_eq num den with h | h <;> omega

/-- A rank behind at least one binade of the shift has a magnitude of at least that size. -/
theorem shiftLeft_le_weight {shift q : ℕ} (hq : binade ≤ q) :
    binade <<< shift ≤ weight (shift * binade + q) := by
  have hpos : 0 < binade := by decide
  have hlarge : ¬ shift * binade + q < binade := by omega
  have hrank : shift + 1 ≤ (shift * binade + q) / binade := by
    rw [Nat.le_div_iff_mul_le hpos, Nat.succ_mul]
    omega
  unfold weight
  rw [if_neg hlarge, Nat.shiftLeft_eq, Nat.shiftLeft_eq]
  exact Nat.mul_le_mul (Nat.le_add_right _ _) (Nat.pow_le_pow_right (by decide) (by omega))

/-- An integer at or above a power of two is rounded to a number at or above it. -/
theorem le_weight_nearestRank {k n : ℕ} (h : 2 ^ k ≤ n) :
    2 ^ k * unitsPerOne ≤ weight (nearestRank n 1) := by
  have hlog := le_log2_scaled h
  have hpos : 0 < n := lt_of_lt_of_le (Nat.two_pow_pos k) h
  have hne : n * unitsPerOne ≠ 0 := Nat.pos_iff_ne_zero.mp (Nat.mul_pos hpos unitsPerOne_pos)
  have hself : 2 ^ (n * unitsPerOne).log2 ≤ n * unitsPerOne := Nat.log2_self_le hne
  unfold nearestRank
  dsimp only
  rw [Nat.div_one, Nat.one_shiftLeft]
  generalize n * unitsPerOne = scaled at hlog hself ⊢
  obtain ⟨shift, hshift⟩ : ∃ shift, scaled.log2 = shift + 52 := ⟨scaled.log2 - 52, by omega⟩
  rw [hshift] at hlog hself ⊢
  rw [Nat.add_sub_cancel]
  -- the scaled number has at least 53 bits, so the ones that are kept fill a binade
  have hq : binade ≤ roundDiv scaled (2 ^ shift) := by
    refine le_trans ?_ (div_le_roundDiv _ _)
    rw [Nat.le_div_iff_mul_le (Nat.two_pow_pos shift), binade_eq, ← pow_add, Nat.add_comm]
    exact hself
  calc 2 ^ k * unitsPerOne = 2 ^ (k + 1074) := pow_mul_unitsPerOne k
    _ ≤ 2 ^ (52 + shift) := Nat.pow_le_pow_right (by decide) (by omega)
    _ = binade <<< shift := by rw [binade_eq, Nat.shiftLeft_eq, pow_add]
    _ ≤ weight (shift * binade + roundDiv scaled (2 ^ shift)) := shiftLeft_le_weight hq

/-- The number is a hundred times an integer. -/
def Decimal.IsHundreds (d : Decimal) : Prop := ∃ m : ℕ, d.value = 100 * m

theorem Decimal.isHundreds_of_le {d : Decimal} (h : 2 ≤ d.exponent) : d.IsHundreds := by
  obtain ⟨k, hk⟩ : ∃ k : ℕ, d.exponent = 2 + k := ⟨(d.exponent - 2).toNat, by omega⟩
  refine ⟨d.digits * 10 ^ k, ?_⟩
  unfold Decimal.value
  rw [hk, zpow_add₀ (by norm_num), zpow_natCast]
  push_cast
  ring

/-- Zeros at the end do not count. -/
theorem value_dropZeros (fuel : ℕ) (d : Decimal) : (dropZeros fuel d).value = d.value := by
  induction fuel generalizing d with
  | zero => rfl
  | succ fuel ih =>
    unfold dropZeros
    split
    · rename_i hmod
      have hdigits : (d.digits : ℚ) = ((d.digits / 10 : ℕ) : ℚ) * 10 := by
        exact_mod_cast (Nat.div_mul_cancel (Nat.dvd_of_mod_eq_zero hmod)).symm
      rw [ih]
      unfold Decimal.value
      rw [hdigits, zpow_add₀ (by norm_num)]
      ring
    · rfl

/-- The grids that are tried end seventeen powers below the magnitude. -/
theorem exponent_of_onGrid {w : Window} {top : ℤ} {d : Decimal}
    (h : (List.range 18).findSome? (fun (i : ℕ) => w.onGrid (top - i)) = some d) :
    top - 17 ≤ d.exponent := by
  obtain ⟨i, hi, hd⟩ := List.exists_of_findSome?_eq_some h
  unfold Window.onGrid at hd
  obtain ⟨m, -, rfl⟩ := Option.map_eq_some_iff.mp hd
  have hlt := List.mem_range.mp hi
  show top - 17 ≤ top - i
  omega

theorem isHundreds_shortestOfRank {rank : ℕ} (h : 2 ^ 63 * unitsPerOne ≤ weight rank) :
    (shortestOfRank rank).IsHundreds := by
  have hmid : 2 ^ 63 ≤ 2 * weight rank / (2 * unitsPerOne) := by
    rw [Nat.mul_div_mul_left _ _ (by decide), Nat.le_div_iff_mul_le unitsPerOne_pos]
    exact h
  have hlength : 18 < decimalLength (2 * weight rank / (2 * unitsPerOne)) :=
    lt_decimalLength_of_pow_le (by decide) (le_trans (by decide) hmid)
  have hceiling : (19 : ℤ) ≤ (window rank).ceiling := by
    have hscale : (window rank).scale ≤ (window rank).mid := by
      show 2 * unitsPerOne ≤ 2 * weight rank
      have hone : unitsPerOne ≤ 2 ^ 63 * unitsPerOne := Nat.le_mul_of_pos_left _ (by decide)
      omega
    unfold Window.ceiling
    rw [if_pos hscale]
    show (19 : ℤ) ≤ decimalLength (2 * weight rank / (2 * unitsPerOne))
    omega
  unfold shortestOfRank
  dsimp only
  unfold Decimal.IsHundreds
  rw [value_dropZeros]
  -- of 19 digits or more the grids that are tried keep 17 at most, which leaves two zeros
  cases hfound : (List.range 18).findSome?
      (fun (i : ℕ) => (window rank).onGrid ((window rank).ceiling - i)) with
  | none => exact ⟨0, by simp [Decimal.value]⟩
  | some d =>
    have hexponent := exponent_of_onGrid hfound
    exact Decimal.isHundreds_of_le (d := d) (by omega)

/-- **What large integers become**: one beyond 64 bits that is its own shortest decimal is a
multiple of a hundred. -/
theorem hundred_dvd_of_decimalValue_eq {n : ℤ} {x : Finite} (hlarge : isInt64 n = false)
    (hx : ofInt n = .finite x) (hvalue : x.decimalValue = n) : (100 : ℤ) ∣ n := by
  -- beyond 64 bits is at or above 2 ^ 63, on either side of zero
  have hn : 2 ^ 63 ≤ n.natAbs := by
    by_contra hsmall
    have hfits : isInt64 n := isInt64_iff.mpr (by omega)
    exact absurd (hfits.symm.trans hlarge) (by decide)
  have hweight := le_weight_nearestRank hn
  unfold ofInt ofRatio at hx
  dsimp only at hx
  split at hx
  · obtain rfl := Binary64.finite.inj hx
    have hrank : nearestRank n.natAbs 1 ≠ 0 := by
      intro hzero
      rw [hzero, weight_zero] at hweight
      exact absurd hweight (by decide)
    obtain ⟨m, hm⟩ := isHundreds_shortestOfRank hweight
    unfold Finite.decimalValue Finite.shortest at hvalue
    dsimp only at hvalue
    rw [if_neg hrank, hm] at hvalue
    split at hvalue
    · have hn : (n : ℚ) = ((100 * -m : ℤ) : ℚ) := by
        rw [← hvalue]
        push_cast
        ring
      exact ⟨-m, Int.cast_injective hn⟩
    · exact ⟨m, by exact_mod_cast hvalue.symm⟩
  · exact absurd hx (by simp)

end Shortest

end Binary64

/-! ## Integers in text -/

section Texts

/-- Digits behind an optional sign, and the integer that they denote. -/
inductive IsIntegerText : List Char → ℤ → Prop
  | digits {ds : List Char} (h : isDigits ds) : IsIntegerText ds (digitsValue ds)
  | plus {ds : List Char} (h : isDigits ds) : IsIntegerText ('+' :: ds) (digitsValue ds)
  | minus {ds : List Char} (h : isDigits ds) : IsIntegerText ('-' :: ds) (-(digitsValue ds : ℤ))

variable {cs ds : List Char} {n : ℤ}

/-- In front of digits there is no sign to be split off. -/
theorem splitSign_digits (h : ∀ c ∈ ds, c.isDigit) : splitSign ds = (false, ds) := by
  unfold splitSign
  split
  · exact absurd (h '-' List.mem_cons_self) (by decide)
  · exact absurd (h '+' List.mem_cons_self) (by decide)
  · rfl

theorem IsIntegerText.split (h : IsIntegerText cs n) : ∃ negative ds,
    splitSign cs = (negative, ds) ∧ isDigits ds ∧ n = signed negative (digitsValue ds) := by
  cases h with
  | digits h => exact ⟨false, _, splitSign_digits (isDigits_iff.mp h).2, h, rfl⟩
  | plus h => exact ⟨false, _, rfl, h, rfl⟩
  | minus h => exact ⟨true, _, rfl, h, rfl⟩

theorem int64_of_isIntegerText (h : IsIntegerText cs n) :
    int64? cs = if isInt64 n then some n else none := by
  obtain ⟨negative, ds, hsplit, hdigits, rfl⟩ := h.split
  unfold int64?
  rw [hsplit]
  dsimp only
  rw [hdigits, Bool.true_and]

/-- Digits alone are a decimal without a fraction and an exponent. -/
theorem decimal_of_isDigits (negative : Bool) (h : isDigits ds) :
    decimal? negative ds = some (Binary64.ofRatio negative (digitsValue ds) 1) := by
  obtain ⟨hne, hall⟩ := isDigits_iff.mp h
  have htake : ds.takeWhile Char.isDigit = ds := List.takeWhile_eq_self_iff.mpr hall
  have hdrop : ds.dropWhile Char.isDigit = [] := List.dropWhile_eq_nil_iff.mpr hall
  have hempty : ds.isEmpty = false := List.isEmpty_eq_false_iff.mpr hne
  unfold decimal?
  rw [htake, hdrop]
  simp only [hempty, Bool.false_and, Bool.false_eq_true, if_false, exponent?, Option.map_some,
    List.append_nil, List.length_nil, Nat.cast_zero, sub_zero, Binary64.ofDecimal_zero]

/-- Digits are none of the words for numbers that are not finite. -/
theorem not_word_of_isDigits {w : String} (hw : w.toList.all (!Char.isDigit ·))
    (h : isDigits ds) : ds.map Char.toLower ≠ w.toList := by
  obtain ⟨hne, hall⟩ := isDigits_iff.mp h
  obtain ⟨c, ds, rfl⟩ := List.exists_cons_of_ne_nil hne
  intro heq
  have hc : c.isDigit := hall c List.mem_cons_self
  have hlower : c.toLower = c := by
    have hle : c.toNat ≤ 57 := (Char.isDigit_iff_toNat.mp hc).2
    have hupper : ¬ 65 ≤ c.val := fun h =>
      absurd ((UInt32.le_iff_toNat_le.mp h).trans hle) (by decide)
    unfold Char.toLower
    exact dif_neg fun h => hupper h.1
  have hmem : c ∈ w.toList := by
    rw [← heq, List.map_cons, hlower]
    exact List.mem_cons_self
  have hnot : c.isDigit = false := by simpa using List.all_eq_true.mp hw c hmem
  exact absurd (hc.symm.trans hnot) (by decide)

/-- An integer other than zero is rounded with its sign. -/
theorem ofInt_signed (negative : Bool) {k : ℕ} (hne : k ≠ 0) :
    Binary64.ofInt (signed negative k) = Binary64.ofRatio negative k 1 := by
  have hsign : decide (signed negative k < 0) = negative := by
    cases negative with
    | false => exact decide_eq_false (by simp [signed])
    | true => exact decide_eq_true (by simp [signed, Nat.pos_of_ne_zero hne])
  have hsize : (signed negative k).natAbs = k := by
    cases negative <;> simp [signed]
  rw [Binary64.ofInt, hsign, hsize]

/-- **An integer beyond 64 bits is rounded**, whatever its sign and its length. -/
theorem binary64_of_isIntegerText (h : IsIntegerText cs n) (hlarge : isInt64 n = false) :
    binary64? cs = some (Binary64.ofInt n) := by
  obtain ⟨negative, ds, hsplit, hdigits, rfl⟩ := h.split
  have hinf := not_word_of_isDigits (w := "inf") (by decide) hdigits
  have hinfinity := not_word_of_isDigits (w := "infinity") (by decide) hdigits
  have hnan := not_word_of_isDigits (w := "nan") (by decide) hdigits
  have hne : digitsValue ds ≠ 0 := by
    intro hzero
    rw [hzero] at hlarge
    exact absurd hlarge (by cases negative <;> decide)
  unfold binary64?
  rw [hsplit]
  dsimp only
  rw [if_neg (not_or.mpr ⟨hinf, hinfinity⟩), if_neg hnan, decimal_of_isDigits negative hdigits,
    ofInt_signed negative hne]

end Texts

end Kusto.Number
