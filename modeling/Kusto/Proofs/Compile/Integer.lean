import Kusto.Proofs.Compile.Written
import Kusto.Proofs.Number.Large

/-!
# Integers — whether an integer keeps its value in the query

An integer of 64 bits is written as it is.  Any other is rounded to binary64, and what is written is
the shortest decimal that is rounded to the same number: another integer, unless the integer is this
decimal itself (`IsDistorted`).  At every place that is read an integer is kept, or a marker tells
of it, unless it is distorted and written; there is no warning then (`keepsInteger_iff`).
-/

open Kusto.Text (trimmed)

namespace Kusto.Compile

open Draft (Scalar Condition Aggregation)
open Kql (Expr Literal)
open Number (Binary64 isInt64 IsIntegerText numeralValue?)

/-- The value is an integer: a number of a document, or a text with blanks around it. -/
inductive IsInteger : Scalar → ℤ → Prop
  | number (n : ℤ) (fits : Number.isInteger64 n = true) : IsInteger (.number (.integer n fits)) n
  | text {s : String} {n : ℤ} (h : IsIntegerText (trimmed s.toList) n) : IsInteger (.text s) n

/-- The integer has more than 64 bits, and rounded to binary64 it is written as another one. -/
def IsDistorted (n : ℤ) : Prop :=
  isInt64 n = false ∧ ∃ y, Binary64.ofInt n = .finite y ∧ y.decimalValue ≠ n

/-- The query does not change the integer at a place in silence. -/
inductive KeepsInteger (ctx : Context) (d : Draft) (pl : Place) (n : ℤ) : Prop
  /-- A numeral that denotes it is written into the query. -/
  | written {x : Expr} (h : pl.IsWritten ctx x)
    (hquery : Kql.render x.tokens <:+: (compile ctx d).query.toList)
    (hvalue : numeralValue? (Kql.render x.tokens) = some (n : ℚ))
  /-- A marker takes its place, and a warning tells of an invalid value. -/
  | marked {name text : String} (h : pl.IsMarked ctx (.invalid name text .number))
    (hwarning : .invalid name text .number ∈ (compile ctx d).warnings)

/-! ## Integers as constants -/

section Constants

variable {v : Scalar} {n : ℤ} {x : Expr}

/-- The literal of an integer. -/
def integerLiteral? (n : ℤ) : Option Literal :=
  if isInt64 n then some (.int n) else finiteLiteral? (Binary64.ofInt n)

theorem number_of_none {m : Json.Number} (h : m.int64? = none) :
    number? (.number m) = finiteLiteral? m.toBinary64 := by
  simp only [number?, h]

theorem numeral_of_none {cs : List Char} {y : Binary64} (h : Number.int64? cs = none)
    (hy : Number.binary64? cs = some y) : numeral? cs = finiteLiteral? y := by
  simp only [numeral?, h, hy, Option.bind_some]

theorem number_of_isInteger (h : IsInteger v n) : number? v = integerLiteral? n := by
  unfold integerLiteral?
  -- a number and its numeral go the same way: exact within 64 bits, rounded beyond
  by_cases hfits : isInt64 n
  · rw [if_pos hfits]
    cases h with
    | number n fits => simp only [number?, Json.Number.int64?, if_pos hfits]
    | text h =>
      simp only [number?, numeral?, Text.toList_trim, Number.int64_of_isIntegerText h, if_pos hfits]
  · rw [if_neg hfits]
    cases h with
    | number n fits =>
      have hnone : (Json.Number.integer n fits).int64? = none := if_neg hfits
      rw [number_of_none hnone, Json.Number.toBinary64]
    | @text s n h =>
      have hnone := Number.int64_of_isIntegerText h
      rw [if_neg hfits, ← Text.toList_trim] at hnone
      have hrounded := Number.binary64_of_isIntegerText h (by simpa using hfits)
      rw [← Text.toList_trim] at hrounded
      rw [number?, numeral_of_none hnone hrounded]

theorem not_mem_of_isDigits {ds : List Char} (h : Number.isDigits ds) : '$' ∉ ds := fun hm =>
  absurd ((Number.isDigits_iff.mp h).2 '$' hm) (by decide)

theorem not_mem_of_isIntegerText {cs : List Char} (h : IsIntegerText cs n) : '$' ∉ cs := by
  cases h with
  | digits h => exact not_mem_of_isDigits h
  | plus h => simpa using not_mem_of_isDigits h
  | minus h => simpa using not_mem_of_isDigits h

theorem not_mem_intText (n : ℤ) : '$' ∉ Number.intText n := by
  have hdigits := not_mem_of_isDigits (Number.isDigits_natText n.natAbs)
  unfold Number.intText
  split
  · simpa using hdigits
  · exact hdigits

/-- An integer is no template variable. -/
theorem not_isTemplateVariable_of_isInteger (h : IsInteger v n) :
    ¬ Kql.isTemplateVariable v.asText := by
  have hdollar : '$' ∉ trimmed v.asText.toList := by
    cases h with
    | number n fits =>
      have hchars : (Scalar.number (.integer n fits)).asText.toList = Number.intText n :=
        String.toList_ofList
      rw [hchars]
      exact fun hm => not_mem_intText n (Text.trimmed_subset _ hm)
    | text h => exact not_mem_of_isIntegerText h
  exact fun hvariable => hdollar (Kql.mem_of_isVariable hvariable)

theorem constant_of_isInteger (h : IsInteger v n) :
    constant? .number v = (integerLiteral? n).map .literal := by
  unfold constant?
  rw [if_neg (by decide), Kql.isTemplateVariable_trim,
    if_neg (not_isTemplateVariable_of_isInteger h), ← number_of_isInteger h]

/-- The constant of an integer denotes it unless it is distorted. -/
theorem numeralValue_constant_iff (h : IsInteger v n) (hx : constant? .number v = some x) :
    numeralValue? (Kql.render x.tokens) = some (n : ℚ) ↔ ¬ IsDistorted n := by
  rw [constant_of_isInteger h] at hx
  obtain ⟨l, hl, rfl⟩ := Option.map_eq_some_iff.mp hx
  unfold integerLiteral? at hl
  -- an integer of 64 bits is written digit by digit, and one beyond as the decimal of its rounding
  split at hl
  · rename_i hfits
    obtain rfl := Option.some.inj hl
    rw [Expr.render_literal]
    refine iff_of_true (Number.numeralValue_intText n) ?_
    rintro ⟨hlarge, -⟩
    exact absurd (hfits.symm.trans hlarge) (by decide)
  · rename_i hfits
    obtain ⟨y, hy, rfl⟩ := finite_of_finiteLiteral hl
    have hvalue : numeralValue? (Literal.real (.finite y)).token.chars = some y.decimalValue :=
      Number.numeralValue_finite rfl y
    rw [Expr.render_literal, hvalue, Option.some_inj]
    constructor
    · rintro hexact ⟨-, z, hz, hne⟩
      obtain rfl := Binary64.finite.inj (hy.symm.trans hz)
      exact hne hexact
    · intro hnot
      by_contra hne
      exact hnot ⟨by simpa using hfits, y, hy, hne⟩

end Constants

/-! ## Integers in queries -/

section Queries

/-- Of the integers beyond 64 bits only multiples of a hundred can be written as they are. -/
theorem isDistorted_of_not_dvd {n : ℤ} {y : Binary64.Finite} (hlarge : isInt64 n = false)
    (hy : Binary64.ofInt n = .finite y) (hdvd : ¬ (100 : ℤ) ∣ n) : IsDistorted n :=
  ⟨hlarge, y, hy, fun hvalue =>
    hdvd (Binary64.hundred_dvd_of_decimalValue_eq hlarge hy hvalue)⟩

variable (ctx : Context) {d : Draft} {pl : Place} {v : Scalar} {n : ℤ}

/-- A distorted integer that is written is not kept. -/
theorem IsDistorted.not_keepsInteger {x : Expr} (h : IsDistorted n) (hx : pl.IsWritten ctx x)
    (hvalue : pl.value? = some (.number, v)) (hv : IsInteger v n) :
    ¬ KeepsInteger ctx d pl n := by
  rintro (⟨hy, -, hdenotes⟩ | ⟨hmarked, -⟩)
  · have hconstant := hy.constant_of_value hvalue
    exact (numeralValue_constant_iff hv hconstant).mp hdenotes h
  · exact hmarked.not_isWritten hx

/-- **Where integers are kept.**  At a place that is read an integer is written with its value, or a
marker tells of it, unless it is distorted and an expression is written there. -/
theorem keepsInteger_iff (hin : pl.IsIn d) (hvalue : pl.value? = some (.number, v))
    (hv : IsInteger v n) :
    (pl.IsRead → KeepsInteger ctx d pl n) ↔ ¬ (IsDistorted n ∧ ∃ x, pl.IsWritten ctx x) := by
  constructor
  · rintro hkeeps ⟨hdistorted, x, hx⟩
    exact hdistorted.not_keepsInteger ctx hx hvalue hv (hkeeps hx.isRead)
  · intro hnot hread
    rcases Place.isWritten_or_isMarked ctx hread hvalue with ⟨x, hx⟩ | ⟨name, text, h⟩
    · have hexact : ¬ IsDistorted n := fun hdistorted => hnot ⟨hdistorted, x, hx⟩
      have hconstant := hx.constant_of_value hvalue
      exact .written hx (hx.infix_query hin)
        ((numeralValue_constant_iff hv hconstant).mpr hexact)
    · exact .marked h (h.mem_warnings hin)

/-- Counts compared with a value. -/
def countIs (v : Scalar) : Condition :=
  ⟨⟨"Count", .number⟩, { name := "==", value := some (.one v) }⟩

/-- The events with such counts. -/
def eventsOf (v : Scalar) : Draft where
  source := some ⟨"Events", .string⟩
  filter := .all [.any [countIs v]]

theorem isRead_countIs (v : Scalar) : (Place.condition (countIs v) 0).IsRead := by
  have hcomplete : (!Text.isBlankText "Count" && !Text.isBlankText "==") = true := by decide
  have hfind : FilterOperator.find? (Text.trim "==") =
      some ⟨"==", .single, FilterOperator.scalar⟩ := by decide
  have hsupports : ValueType.number ∈ FilterOperator.scalar := by decide
  exact ⟨hcomplete, _, hfind, decide_eq_true hsupports, by decide, fun _ => rfl⟩

theorem isIn_eventsOf (v : Scalar) : (Place.condition (countIs v) 0).IsIn (eventsOf v) :=
  List.mem_singleton.mpr rfl

/-- An integer of 64 bits that binary64 does not have. -/
theorem keepsInteger_events :
    (Place.condition (countIs (.text " 9007199254740993 ")) 0).value? =
        some (.number, .text " 9007199254740993 ") ∧
      IsInteger (.text " 9007199254740993 ") 9007199254740993 ∧
      KeepsInteger {} (eventsOf (.text " 9007199254740993 "))
        (.condition (countIs (.text " 9007199254740993 ")) 0) 9007199254740993 := by
  have hv : IsInteger (.text " 9007199254740993 ") 9007199254740993 :=
    .text (.digits (by decide : Number.isDigits "9007199254740993".toList))
  refine ⟨rfl, hv, (keepsInteger_iff {} (isIn_eventsOf _) rfl hv).mpr ?_ (isRead_countIs _)⟩
  rintro ⟨⟨hlarge, -⟩, -⟩
  exact absurd hlarge (by decide)

/-- The first integer beyond 64 bits that binary64 does not have. -/
def beyond : Scalar := .number (.integer 9223372036854775809 (by decide))

/-- It is written as another one, and no warning tells of it. -/
theorem not_keepsInteger_beyond :
    IsInteger beyond 9223372036854775809 ∧
      (compile {} (eventsOf beyond)).query = "Events | where (Count == 9.223372036854776e18)" ∧
      (compile {} (eventsOf beyond)).warnings = [] ∧
      ¬ KeepsInteger {} (eventsOf beyond) (.condition (countIs beyond) 0) 9223372036854775809 := by
  have hquery : (compile {} (eventsOf beyond)).query =
      "Events | where (Count == 9.223372036854776e18)" := by decide +kernel
  have hwarnings : (compile {} (eventsOf beyond)).warnings = [] := by decide +kernel
  have hfinite : (Binary64.ofInt 9223372036854775809).finite?.isSome := by decide +kernel
  have hdistorted : IsDistorted 9223372036854775809 := by
    cases hrounded : Binary64.ofInt 9223372036854775809 with
    | finite y => exact isDistorted_of_not_dvd (by decide) hrounded (by decide)
    | infinite | nan =>
      rw [hrounded] at hfinite
      exact absurd hfinite (by simp [Binary64.finite?])
  refine ⟨.number _ _, hquery, hwarnings, ?_⟩
  -- without a warning it can only have been written, and what is written denotes another number
  rcases Place.isWritten_or_isMarked {} (isRead_countIs beyond) rfl with ⟨x, hx⟩ | h
  · exact hdistorted.not_keepsInteger {} hx rfl (.number _ _)
  · obtain ⟨name, text, hmarked⟩ := h
    have hwarning := hmarked.mem_warnings (isIn_eventsOf beyond)
    rw [hwarnings] at hwarning
    exact absurd hwarning List.not_mem_nil

end Queries

end Kusto.Compile
