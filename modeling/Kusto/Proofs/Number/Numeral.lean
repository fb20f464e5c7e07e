import Kusto.Number.Layout
import Kusto.Number.Numeral
import Kusto.Text.Pieces
import Mathlib.Algebra.Order.Field.Rat
import Mathlib.Data.List.Induction
import Mathlib.Data.Rat.Cast.Order
import Mathlib.Tactic.FieldSimp
import Mathlib.Tactic.Ring

/-!
# Numerals — the numbers that written numbers denote

`numeralValue?` reads a decimal numeral: digits, with an optional point between them, an optional
exponent behind and an optional minus sign in front.  A written integer denotes itself, and a
written real the decimal that it was written from, whatever its layout
(`numeralValue_intText`, `numeralValue_finite`).
-/

open Kusto.Text (pieces pieces_of_not_mem pieces_append_cons)

namespace Kusto.Number

/-! ## Reading -/

section Reading

/-- Digits, or digits on both sides of a point. -/
def pointValue? (cs : List Char) : Option ℚ :=
  match pieces '.' cs with
  | [whole] => if isDigits whole then some (digitsValue whole) else none
  | [whole, fraction] =>
    if isDigits whole && isDigits fraction then
      some (digitsValue (whole ++ fraction) / 10 ^ fraction.length)
    else none
  | _ => none

/-- Digits behind an optional minus sign. -/
def exponentValue? : List Char → Option ℤ
  | '-' :: ds => if isDigits ds then some (-(digitsValue ds : ℤ)) else none
  | ds => if isDigits ds then some (digitsValue ds) else none

/-- A decimal, with an optional exponent behind an `e`. -/
def decimalValue? (cs : List Char) : Option ℚ :=
  match pieces 'e' cs with
  | [mantissa] => pointValue? mantissa
  | [mantissa, exponent] => do return (← pointValue? mantissa) * 10 ^ (← exponentValue? exponent)
  | _ => none

/-- The number that a decimal numeral denotes. -/
def numeralValue? : List Char → Option ℚ
  | '-' :: cs => (decimalValue? cs).map fun q => -q
  | cs => decimalValue? cs

end Reading

/-! ## Digits -/

section Digits

variable {ds es : List Char}

theorem digitsValue_append (ds es : List Char) :
    digitsValue (ds ++ es) = digitsValue ds * 10 ^ es.length + digitsValue es := by
  induction es using List.reverseRecOn with
  | nil => simp [digitsValue]
  | append_singleton es c ih =>
    rw [← List.append_assoc]
    simp only [digitsValue, List.foldl_append, List.foldl_cons, List.foldl_nil,
      List.length_append, List.length_singleton] at ih ⊢
    rw [ih]
    ring

theorem digitsValue_replicate_zero (k : ℕ) : digitsValue (List.replicate k '0') = 0 := by
  induction k with
  | zero => rfl
  | succ k ih =>
    rw [List.replicate_succ', digitsValue_append, ih]
    simp [digitsValue, digitValue]

theorem isDigits_iff : isDigits ds ↔ ds ≠ [] ∧ ∀ c ∈ ds, c.isDigit := by
  simp [isDigits]

theorem isDigits_append_left (hd : isDigits ds) (he : ∀ c ∈ es, c.isDigit) :
    isDigits (ds ++ es) := by
  obtain ⟨hne, hall⟩ := isDigits_iff.mp hd
  refine isDigits_iff.mpr ⟨by simp [hne], fun c hc => ?_⟩
  rcases List.mem_append.mp hc with h | h
  · exact hall c h
  · exact he c h

theorem isDigits_natText (n : ℕ) : isDigits (natText n) :=
  isDigits_iff.mpr ⟨List.length_pos_iff.mp Nat.length_toDigits_pos, fun _ hc =>
    Nat.isDigit_of_mem_toDigits (by decide) (by decide) hc⟩

theorem digitsValue_natText (n : ℕ) : digitsValue (natText n) = n :=
  Nat.ofDigitChars_toDigits (by decide) (by decide)

theorem isDigit_of_mem_replicate {k : ℕ} : ∀ c ∈ List.replicate k '0', c.isDigit := by
  intro c hc
  rw [List.eq_of_mem_replicate hc]
  decide

/-- A mark that is no digit does not stand among digits. -/
theorem not_mem_of_isDigit {c : Char} (hc : c.isDigit = false) (h : ∀ d ∈ ds, d.isDigit) :
    c ∉ ds := fun hm => absurd ((h c hm).symm.trans hc) (by decide)

end Digits

/-! ## Points and exponents -/

section Points

variable {ds fs : List Char}

theorem pointValue_digits (hd : isDigits ds) : pointValue? ds = some (digitsValue ds : ℚ) := by
  have hdot : '.' ∉ ds := not_mem_of_isDigit (by decide) (isDigits_iff.mp hd).2
  unfold pointValue?
  rw [pieces_of_not_mem hdot]
  exact if_pos hd

theorem pointValue_point (hd : isDigits ds) (hf : isDigits fs) :
    pointValue? (ds ++ '.' :: fs) = some ((digitsValue (ds ++ fs) : ℚ) / 10 ^ fs.length) := by
  have hdot : '.' ∉ ds := not_mem_of_isDigit (by decide) (isDigits_iff.mp hd).2
  have hdot' : '.' ∉ fs := not_mem_of_isDigit (by decide) (isDigits_iff.mp hf).2
  unfold pointValue?
  rw [pieces_append_cons hdot, pieces_of_not_mem hdot']
  exact if_pos (by simp [hd, hf])

theorem decimalValue_of_not_mem {cs : List Char} (h : 'e' ∉ cs) :
    decimalValue? cs = pointValue? cs := by
  unfold decimalValue?
  rw [pieces_of_not_mem h]

theorem not_mem_point {c : Char} (hc : c.isDigit = false) (hdot : c ≠ '.')
    (hd : ∀ d ∈ ds, d.isDigit) (hf : ∀ d ∈ fs, d.isDigit) : c ∉ ds ++ '.' :: fs := by
  simp only [List.mem_append, List.mem_cons, not_or]
  exact ⟨not_mem_of_isDigit hc hd, hdot, not_mem_of_isDigit hc hf⟩

theorem decimalValue_digits (hd : isDigits ds) :
    decimalValue? ds = some (digitsValue ds : ℚ) := by
  have he : 'e' ∉ ds := not_mem_of_isDigit (by decide) (isDigits_iff.mp hd).2
  rw [decimalValue_of_not_mem he, pointValue_digits hd]

theorem decimalValue_point (hd : isDigits ds) (hf : isDigits fs) :
    decimalValue? (ds ++ '.' :: fs) = some ((digitsValue (ds ++ fs) : ℚ) / 10 ^ fs.length) := by
  have he : 'e' ∉ ds ++ '.' :: fs :=
    not_mem_point (by decide) (by decide) (isDigits_iff.mp hd).2 (isDigits_iff.mp hf).2
  rw [decimalValue_of_not_mem he, pointValue_point hd hf]

theorem exponentValue_intText (k : ℤ) : exponentValue? (intText k) = some k := by
  have hdigits := isDigits_natText k.natAbs
  unfold intText
  split
  · rename_i hneg
    have habs : -(k.natAbs : ℤ) = k := by omega
    show (if isDigits (natText k.natAbs) then _ else none) = _
    rw [if_pos hdigits, digitsValue_natText, habs]
  · rename_i hpos
    have habs : (k.natAbs : ℤ) = k := by omega
    have hminus : '-' ∉ natText k.natAbs :=
      not_mem_of_isDigit (by decide) (isDigits_iff.mp hdigits).2
    unfold exponentValue?
    split
    · rename_i ds hds
      exact absurd (hds ▸ List.mem_cons_self) hminus
    · rw [if_pos hdigits, digitsValue_natText, habs]

theorem decimalValue_exponent {m : List Char} {q : ℚ} (he : 'e' ∉ m)
    (hm : pointValue? m = some q) (k : ℤ) :
    decimalValue? (m ++ 'e' :: intText k) = some (q * 10 ^ k) := by
  have hexp : 'e' ∉ intText k := by
    have hdigits := (isDigits_iff.mp (isDigits_natText k.natAbs)).2
    have he' : 'e' ∉ natText k.natAbs := not_mem_of_isDigit (by decide) hdigits
    unfold intText
    split
    · simpa using he'
    · exact he'
  have hk := exponentValue_intText k
  unfold decimalValue?
  rw [pieces_append_cons he, pieces_of_not_mem hexp]
  dsimp only
  rw [hm, hk]
  rfl

end Points

/-! ## Layouts -/

section Layouts

variable {digits : List Char}

/-- The power of ten of the last digit, where `k` is that of the first one. -/
def lastPower (digits : List Char) (k : ℤ) : ℤ := k - digits.length + 1

/-- Zeros stand between the point and the digits. -/
theorem decimalValue_zeros_digits (h : isDigits digits) (j : ℕ) :
    decimalValue? ('0' :: '.' :: (List.replicate j '0' ++ digits)) =
      some ((digitsValue digits : ℚ) / 10 ^ (j + digits.length)) := by
  obtain ⟨hne, hall⟩ := isDigits_iff.mp h
  have hfs : isDigits (List.replicate j '0' ++ digits) := by
    refine isDigits_iff.mpr ⟨by simp [hne], fun c hc => ?_⟩
    rcases List.mem_append.mp hc with hc | hc
    · exact isDigit_of_mem_replicate c hc
    · exact hall c hc
  have hvalue : digitsValue (['0'] ++ (List.replicate j '0' ++ digits)) = digitsValue digits := by
    rw [digitsValue_append, digitsValue_append, digitsValue_replicate_zero]
    simp [digitsValue, digitValue]
  have hread := decimalValue_point (by decide : isDigits ['0']) hfs
  rw [hvalue, List.length_append, List.length_replicate] at hread
  exact hread

/-- Zeros stand behind the digits, and one behind the point. -/
theorem decimalValue_digits_zeros (h : isDigits digits) (j : ℕ) :
    decimalValue? (digits ++ List.replicate j '0' ++ ['.', '0']) =
      some ((digitsValue digits : ℚ) * 10 ^ j) := by
  have hds : isDigits (digits ++ List.replicate j '0') :=
    isDigits_append_left h isDigit_of_mem_replicate
  rw [decimalValue_point hds (by decide : isDigits ['0']), digitsValue_append, digitsValue_append,
    digitsValue_replicate_zero, List.length_replicate]
  simp [digitsValue, digitValue]

/-- The point stands between two digits. -/
theorem decimalValue_digits_point (h : isDigits digits) {j : ℕ} (hj : j + 1 < digits.length) :
    decimalValue? (digits.take (j + 1) ++ '.' :: digits.drop (j + 1)) =
      some ((digitsValue digits : ℚ) / 10 ^ (digits.length - (j + 1))) := by
  obtain ⟨hne, hall⟩ := isDigits_iff.mp h
  have hds : isDigits (digits.take (j + 1)) :=
    isDigits_iff.mpr ⟨by simp [hne], fun c hc => hall c (List.mem_of_mem_take hc)⟩
  have hfs : isDigits (digits.drop (j + 1)) :=
    isDigits_iff.mpr ⟨by simpa [List.drop_eq_nil_iff] using hj,
      fun c hc => hall c (List.mem_of_mem_drop hc)⟩
  rw [decimalValue_point hds hfs, List.take_append_drop, List.length_drop]

theorem decimalValue_positional (h : isDigits digits) (k : ℤ) :
    decimalValue? (positional digits k) =
      some ((digitsValue digits : ℚ) * 10 ^ lastPower digits k) := by
  unfold positional
  dsimp only
  -- the point stands before all digits, behind them, or among them
  split_ifs with hneg hshort
  · have hpow : lastPower digits k = -(((-k - 1).toNat + digits.length : ℕ) : ℤ) := by
      simp only [lastPower]
      omega
    rw [decimalValue_zeros_digits h, hpow, zpow_neg, zpow_natCast, div_eq_mul_inv]
  · have hpow : lastPower digits k = ((k.toNat + 1 - digits.length : ℕ) : ℤ) := by
      simp only [lastPower]
      omega
    rw [decimalValue_digits_zeros h, hpow, zpow_natCast]
  · have hpow : lastPower digits k = -((digits.length - (k.toNat + 1) : ℕ) : ℤ) := by
      simp only [lastPower]
      omega
    rw [decimalValue_digits_point h (by omega), hpow, zpow_neg, zpow_natCast, div_eq_mul_inv]

theorem decimalValue_exponential (h : isDigits digits) (k : ℤ) :
    decimalValue? (exponential false digits k) =
      some ((digitsValue digits : ℚ) * 10 ^ lastPower digits k) := by
  obtain ⟨hne, hall⟩ := isDigits_iff.mp h
  unfold exponential
  dsimp only
  -- a single digit has no point behind it
  split
  · rename_i d e rest
    have hd : isDigits [d] := isDigits_iff.mpr ⟨by simp, fun c hc => hall c (by simp_all)⟩
    have hf : isDigits (e :: rest) :=
      isDigits_iff.mpr ⟨by simp, fun c hc => hall c (List.mem_cons_of_mem d hc)⟩
    have he : 'e' ∉ [d] ++ '.' :: e :: rest :=
      not_mem_point (by decide) (by decide) (isDigits_iff.mp hd).2 (isDigits_iff.mp hf).2
    have hpow : lastPower (d :: e :: rest) k = k - ((e :: rest).length : ℤ) := by
      simp only [lastPower, List.length_cons]
      omega
    have hread := decimalValue_exponent he (pointValue_point hd hf) k
    rw [hpow, zpow_sub₀ (by norm_num), zpow_natCast]
    refine hread.trans (congrArg some ?_)
    rw [List.singleton_append]
    ring
  · rename_i short hlong
    obtain ⟨d, rfl⟩ : ∃ d, digits = [d] := by
      match digits, hne, hlong with
      | [d], _, _ => exact ⟨d, rfl⟩
      | d :: e :: rest, _, hlong => exact absurd rfl (hlong d e rest)
    have he : 'e' ∉ [d] := not_mem_of_isDigit (by decide) hall
    have hpow : lastPower [d] k = k := by simp [lastPower]
    rw [hpow]
    exact decimalValue_exponent he (pointValue_digits h) k

/-- The number that a decimal stands for. -/
def Binary64.Decimal.value (d : Binary64.Decimal) : ℚ := d.digits * 10 ^ d.exponent

/-- The number that the shortest decimal of a number stands for, with its sign. -/
def Binary64.Finite.decimalValue (x : Binary64.Finite) : ℚ :=
  if x.negative then -x.shortest.value else x.shortest.value

variable {layout : Layout}

theorem decimalValue_decimal (hplus : layout.plus = false) (d : Binary64.Decimal) :
    decimalValue? (layout.decimal d) = some d.value := by
  have hdigits := isDigits_natText d.digits
  have hlast : lastPower (natText d.digits) (d.exponent + (natText d.digits).length - 1) =
      d.exponent := by
    simp only [lastPower]
    omega
  have hvalue : ((digitsValue (natText d.digits) : ℕ) : ℚ) * 10 ^ d.exponent = d.value := by
    rw [digitsValue_natText]
    rfl
  unfold Layout.decimal
  dsimp only
  split
  · rw [decimalValue_positional hdigits, hlast, hvalue]
  · rw [hplus, decimalValue_exponential hdigits, hlast, hvalue]

/-- Digits in front show no sign. -/
theorem numeralValue_of_isDigits {ds cs : List Char} (h : isDigits ds) :
    numeralValue? (ds ++ cs) = decimalValue? (ds ++ cs) := by
  obtain ⟨hne, hall⟩ := isDigits_iff.mp h
  obtain ⟨c, ds, rfl⟩ := List.exists_cons_of_ne_nil hne
  have hc : c ≠ '-' := by
    rintro rfl
    exact absurd (hall '-' List.mem_cons_self) (by decide)
  unfold numeralValue?
  split
  · rename_i heq
    exact absurd (List.cons_eq_cons.mp heq).1 hc
  · rfl

/-- Every layout begins with a digit. -/
theorem exists_digits_decimal (layout : Layout) (d : Binary64.Decimal) :
    ∃ ds cs, isDigits ds ∧ layout.decimal d = ds ++ cs := by
  have h := isDigits_natText d.digits
  obtain ⟨hne, hall⟩ := isDigits_iff.mp h
  unfold Layout.decimal
  dsimp only
  split
  · unfold positional
    dsimp only
    split_ifs
    · exact ⟨['0'], _, by decide, rfl⟩
    · exact ⟨natText d.digits, _, h, List.append_assoc ..⟩
    · refine ⟨(natText d.digits).take _, _, isDigits_iff.mpr ⟨?_, ?_⟩, rfl⟩
      · simp [hne]
      · exact fun c hc => hall c (List.mem_of_mem_take hc)
  · unfold exponential
    dsimp only
    split
    · rename_i c e rest heq
      refine ⟨[c], _, isDigits_iff.mpr ⟨by simp, fun x hx => hall x ?_⟩, rfl⟩
      rw [heq, List.mem_singleton.mp hx]
      exact List.mem_cons_self
    · exact ⟨natText d.digits, _, h, rfl⟩

/-- A written integer denotes itself. -/
theorem numeralValue_intText (n : ℤ) : numeralValue? (intText n) = some (n : ℚ) := by
  have hdigits := isDigits_natText n.natAbs
  have hread := decimalValue_digits hdigits
  rw [digitsValue_natText] at hread
  unfold intText
  split
  · rename_i hneg
    have habs : n = -(n.natAbs : ℤ) := by omega
    show (decimalValue? (natText n.natAbs)).map _ = _
    rw [hread, habs]
    simp
  · rename_i hpos
    have habs : n = (n.natAbs : ℤ) := by omega
    have hplain : numeralValue? (natText n.natAbs ++ []) = decimalValue? (natText n.natAbs ++ []) :=
      numeralValue_of_isDigits hdigits
    rw [List.append_nil] at hplain
    rw [hplain, hread, habs]
    simp

/-- A written real denotes its shortest decimal, whatever its layout. -/
theorem numeralValue_finite (hplus : layout.plus = false) (x : Binary64.Finite) :
    numeralValue? (layout.finite x) = some x.decimalValue := by
  have hread := decimalValue_decimal hplus x.shortest
  unfold Layout.finite Binary64.Finite.decimalValue
  dsimp only
  split_ifs
  · show (decimalValue? _).map _ = _
    rw [hread]
    rfl
  · obtain ⟨ds, cs, hds, heq⟩ := exists_digits_decimal layout x.shortest
    rw [heq] at hread ⊢
    rw [numeralValue_of_isDigits hds, hread]

end Layouts

end Kusto.Number
