import Kusto.Proofs.Compile.Place
import Kusto.Proofs.Kql.Quoted
import Kusto.Proofs.Kql.Timespan
import Kusto.Proofs.Number.Numeral

/-!
# Written values — how the type of a value decides what is written for it

`IsWrittenAs type v w`: `w` is how a value of a type is written.  A text stands in double quotes and
is read back out of them, whatever it looks like.  A value of another type is the template variable
that it names, else a numeral, a truth value, a point of time, a relative time or a timespan, and it
has no quotes at all.  Every operand of a query is written so (`compile_writesByType`).
-/

open Kusto.Text (trim trimmed)

namespace Kusto.Kql

/-- No quote of either kind is among the characters. -/
def Unquoted (w : List Char) : Prop := '"' ∉ w ∧ '\'' ∉ w

theorem Inert.unquoted {w : List Char} (h : Inert w) : Unquoted w :=
  ⟨fun hm => h _ hm (by decide), fun hm => h _ hm (by decide)⟩

theorem unquoted_of_isRelative {cs : List Char} (h : isRelative cs) : Unquoted cs := by
  cases isRelative_iff.mp h with
  | now => exact ⟨by decide, by decide⟩
  | @ago x hx =>
    have hspan : Inert x := inert_of_trimmed (inert_of_isTimespan (isTimespan_iff.mpr hx))
    obtain ⟨hdouble, hsingle⟩ := hspan.unquoted
    exact ⟨by simp [hdouble], by simp [hsingle]⟩

theorem Inert.unquoted_dateTime {w : List Char} (h : Inert w) :
    Unquoted ("datetime(".toList ++ w ++ [')']) := by
  obtain ⟨hdouble, hsingle⟩ := h.unquoted
  exact ⟨by simp [hdouble], by simp [hsingle]⟩

theorem render_singleton (t : Token) : render [t] = t.chars := by
  rw [render_cons, render_nil, List.append_nil]

theorem Expr.render_literal (l : Literal) : render (literal l).tokens = l.token.chars := by
  rw [tokens_literal, render_singleton]

end Kusto.Kql

namespace Kusto.Compile

open Draft (Scalar Condition Aggregation)
open Kql (Expr Literal Unquoted Token)

/-- How a value of a type is written.  Values of a function or an interval can only be template
variables. -/
inductive IsWrittenAs : ValueType → Scalar → List Char → Prop
  /-- Out of its quotes a text is read as it has been typed. -/
  | text {v : Scalar} {w : List Char} (h : Kql.readText? w = some (v.asText.toList, [])) :
    IsWrittenAs .string v w
  /-- A template variable stands for a value of any type but text. -/
  | template {type : ValueType} {v : Scalar} (htype : type ≠ .string)
    (h : Kql.isVariable (trimmed v.asText.toList)) : IsWrittenAs type v (trimmed v.asText.toList)
  | number {v : Scalar} {w : List Char} {q : ℚ}
    (hnot : ¬ Kql.isVariable (trimmed v.asText.toList)) (h : Number.numeralValue? w = some q) :
    IsWrittenAs .number v w
  | boolean {v : Scalar} {b : Bool} (hnot : ¬ Kql.isVariable (trimmed v.asText.toList))
    (h : v = .bool b ∨ Kql.truth? v.asText = some b) :
    IsWrittenAs .boolean v (if b then "true" else "false").toList
  | dateTime {v : Scalar} (hnot : ¬ Kql.isVariable (trimmed v.asText.toList))
    (h : Time.isDateTime (trimmed v.asText.toList)) :
    IsWrittenAs .dateTime v ("datetime(".toList ++ trimmed v.asText.toList ++ [')'])
  | relative {v : Scalar} (hnot : ¬ Kql.isVariable (trimmed v.asText.toList))
    (h : Kql.isRelative (trimmed v.asText.toList)) :
    IsWrittenAs .dateTime v (trimmed v.asText.toList)
  | timeSpan {v : Scalar} (hnot : ¬ Kql.isVariable (trimmed v.asText.toList))
    (h : Kql.isTimespan (trimmed v.asText.toList)) :
    IsWrittenAs .timeSpan v (trimmed v.asText.toList)

/-- A value is written by its type, and but for a text without quotes. -/
structure Written (type : ValueType) (v : Scalar) (w : List Char) : Prop where
  form : IsWrittenAs type v w
  unquoted : type ≠ .string → Unquoted w

/-! ## Constants -/

section Constants

variable {type : ValueType} {v : Scalar} {x : Expr}

theorem written_text (v : Scalar) : Written .string v (Kql.quoted v.asText) where
  form := .text (by rw [← List.append_nil (Kql.quoted _), Kql.readText_quoted])
  unquoted hne := absurd rfl hne

theorem written_number {l : Literal} (hnot : ¬ Kql.isVariable (trimmed v.asText.toList))
    (h : number? v = some l) : Written .number v l.token.chars := by
  rcases number_cases h with ⟨n, rfl⟩ | ⟨y, rfl⟩
  · exact ⟨.number hnot (Number.numeralValue_intText n), fun _ => (Kql.inert_intText n).unquoted⟩
  · exact ⟨.number hnot (Number.numeralValue_finite rfl y),
      fun _ => (Kql.inert_finite _ y).unquoted⟩

theorem written_truth {l : Literal} (hnot : ¬ Kql.isVariable (trimmed v.asText.toList))
    (h : truth? v = some l) : Written .boolean v l.token.chars := by
  obtain ⟨b, rfl, hb⟩ := truth_cases h
  have hchars : (Literal.bool b).token.chars = (if b then "true" else "false").toList := by
    cases b <;> rfl
  rw [hchars]
  exact ⟨.boolean hnot hb, fun _ => by cases b <;> exact ⟨by decide, by decide⟩⟩

/-- **A constant is written by its type**, whatever the user typed. -/
theorem written_constant (h : constant? type v = some x) :
    Written type v (Kql.render x.tokens) := by
  have htrimmed : (trim v.asText).toList = trimmed v.asText.toList := Text.toList_trim _
  -- all recognizers trim, so what they say of the value holds of the trimmed text that is written
  cases isConstant_of_constant h with
  | text =>
    rw [Expr.render_literal]
    exact written_text v
  | template htype hvariable =>
    rw [Kql.isTemplateVariable_trim] at hvariable
    rw [Expr.tokens_template, Kql.render_singleton, Token.chars_template, htrimmed]
    exact ⟨.template htype hvariable, fun _ => (Kql.inert_of_isVariable hvariable).unquoted⟩
  | number hnot hl =>
    rw [Kql.isTemplateVariable_trim] at hnot
    rw [Expr.render_literal]
    exact written_number hnot hl
  | boolean hnot hl =>
    rw [Kql.isTemplateVariable_trim] at hnot
    rw [Expr.render_literal]
    exact written_truth hnot hl
  | relative hnot hrelative =>
    rw [Kql.isTemplateVariable_trim] at hnot
    rw [Kql.isRelativeTime_trim] at hrelative
    rw [Expr.tokens_verbatim, Kql.render_singleton, Token.chars_verbatim, htrimmed]
    exact ⟨.relative hnot hrelative, fun _ => Kql.unquoted_of_isRelative hrelative⟩
  | dateTime hnot hdate =>
    rw [Kql.isTemplateVariable_trim] at hnot
    rw [htrimmed] at hdate
    rw [Expr.render_literal, Literal.token, Token.chars_dateTime, htrimmed]
    exact ⟨.dateTime hnot hdate, fun _ => (Kql.inert_of_isDateTime hdate).unquoted_dateTime⟩
  | timeSpan hnot hspan =>
    rw [Kql.isTemplateVariable_trim] at hnot
    rw [Kql.isTimespanLiteral_trim] at hspan
    rw [Expr.render_literal, Literal.token, Token.chars_timeSpan, htrimmed]
    exact ⟨.timeSpan hnot hspan, fun _ => (Kql.inert_of_isTimespan hspan).unquoted⟩

end Constants

/-! ## The operands of a query -/

section Queries

/-- The operands of a query are written by their types. -/
structure WritesByType (ctx : Context) (d : Draft) : Prop where
  /-- What is written at a place is the value there, as its type has it. -/
  written : ∀ pl : Place, pl.IsIn d → ∀ x, pl.IsWritten ctx x →
    ∃ type v, pl.value? = some (type, v) ∧ Written type v (Kql.render x.tokens)
  /-- Its text is a part of the query. -/
  occurs : ∀ pl : Place, pl.IsIn d → ∀ x, pl.IsWritten ctx x →
    Kql.render x.tokens <:+: (compile ctx d).query.toList
  /-- A condition is a marker, or it is written with whatever it is compared with. -/
  conditions : ∀ c ∈ conditions d, ∀ q, conditionPiece? ctx c = some q →
    (∃ w, q = .ofResult (.error w)) ∨
      ∀ i x, q.expr.operands[i]? = some x → (Place.condition c i).IsWritten ctx x
  /-- Behind the column of an aggregation stand markers and what is written. -/
  arguments : ∀ a ∈ d.aggregations.items, ∀ q, aggregationPiece? ctx a = some q →
    ∀ i x, q.expr.arguments[i + 1]? = some x →
      x.isMarker ∨ (Place.argument a i).IsWritten ctx x

variable {ctx : Context} {d : Draft}

theorem isWritten_operands {c : Condition} {q : Piece} (hq : conditionPiece? ctx c = some q) :
    (∃ w, q = .ofResult (.error w)) ∨
      ∀ i x, q.expr.operands[i]? = some x → (Place.condition c i).IsWritten ctx x := by
  have hresult := hq
  unfold conditionPiece? at hresult
  split at hresult
  · cases hcondition : condition ctx c with
    | error w =>
      rw [hcondition] at hresult
      exact .inl ⟨w, (Option.some.inj hresult).symm⟩
    | ok e =>
      rw [hcondition] at hresult
      obtain rfl := Option.some.inj hresult
      exact .inr fun i x hx => ⟨e, hq, hx⟩
  · exact absurd hresult (by simp)

theorem isWritten_arguments {a : Aggregation} {q : Piece} {i : ℕ} {x : Expr}
    (hq : aggregationPiece? ctx a = some q) (hx : q.expr.arguments[i + 1]? = some x) :
    x.isMarker ∨ (Place.argument a i).IsWritten ctx x := by
  by_cases hmarker : x.isMarker
  · exact .inl hmarker
  · exact .inr ⟨q, hq, hx, by simpa using hmarker⟩

variable (ctx d)

/-- **Operands are quoted by type**, for every draft and whatever it is read against. -/
theorem compile_writesByType : WritesByType ctx d where
  written pl _ x hx := by
    obtain ⟨type, v, hvalue, hconstant⟩ := hx.constant
    exact ⟨type, v, hvalue, written_constant hconstant⟩
  occurs pl hin x hx := hx.infix_query hin
  conditions c _ q hq := isWritten_operands hq
  arguments a _ q hq i x hx := isWritten_arguments hq hx

end Queries

end Kusto.Compile
