import Kusto.Proofs.Compile.Form
import Kusto.Proofs.Kql.Literal

/-!
# Closed expressions — what a draft is compiled to, part by part

An expression is closed if its text is.  The forms of an expression keep this, and every constant,
condition, aggregation and grouping key that a draft is compiled to has it, whatever texts the user
typed: `isClosed_constant`, `isClosed_alternatives`, `isClosed_aggregation`, `isClosed_grouping`.
-/

open Kusto.Text (joinWith joinWith_cons trim)

namespace Kusto.Kql

/-- The text of the expression is closed. -/
def Expr.IsClosed (e : Expr) : Prop := Closed (render e.tokens)

/-- The text of a date or of a timespan is inert; the other literals need no condition. -/
def Literal.IsWritten : Literal → Prop
  | .dateTime s | .timeSpan s => Inert s.toList
  | _ => True

namespace Expr

section Forms

theorem render_joinWith (sep : List Token) (tss : List (List Token)) :
    render (joinWith sep tss) = joinWith (render sep) (tss.map render) := by
  induction tss with
  | nil => rfl
  | cons ts tss ih =>
    by_cases h : tss = []
    · subst h
      rfl
    · have h' : tss.map render ≠ [] := by simpa using h
      rw [joinWith_cons _ _ h, List.map_cons, joinWith_cons _ _ h', render_append, render_append,
        ih]

theorem closed_inParens {ts : List Token} (h : Closed (render ts)) :
    Closed (render (inParens ts)) := by
  have hp := h.parens
  simpa [inParens, Mark.chars] using hp

theorem closed_spaced {t : Token} (h : Closed t.chars) : Closed (render (spaced t)) := by
  have hs : Closed [' '] := (by decide : Inert [' ']).closed
  simpa [spaced] using (hs.append h).append hs

/-- Closed expressions in a row, with a closed text between neighbours. -/
theorem closed_row {sep : List Token} (hs : Closed (render sep)) {es : List Expr}
    (h : ∀ e ∈ es, e.IsClosed) : Closed (render (joinWith sep (es.map tokens))) := by
  rw [render_joinWith]
  refine closed_joinWith hs fun w hw => ?_
  rw [List.map_map, List.mem_map] at hw
  obtain ⟨e, he, rfl⟩ := hw
  exact h e he

theorem closed_separator : Closed (render separator) :=
  (by decide : Inert (render separator)).closed

variable {e low high : Expr} {es : List Expr}

theorem isClosed_column (name : String) : (column name).IsClosed := by
  simpa [Expr.IsClosed] using closed_identifier name

theorem isClosed_path (root : String) (keys : List String) : (path root keys).IsClosed := by
  have hkey : ∀ key : String, Closed (render (keyTokens key)) := fun key => by
    simpa [keyTokens, Mark.chars] using (closed_quoted key).brackets
  have hkeys : Closed (render (keys.flatMap keyTokens)) := by
    rw [render, List.flatMap_assoc]
    exact closed_flatMap fun key _ => hkey key
  simpa [Expr.IsClosed] using (closed_identifier root).append hkeys

theorem isClosed_template {name : String} (h : Inert name.toList) : (template name).IsClosed := by
  simpa [Expr.IsClosed] using h.closed

theorem isClosed_verbatim {s : String} (h : Closed s.toList) : (verbatim s).IsClosed := by
  simpa [Expr.IsClosed] using h

theorem isClosed_marker (message : String) : (marker message).IsClosed := by
  simpa [Expr.IsClosed] using closed_comment message

theorem isClosed_paren (h : e.IsClosed) : (paren e).IsClosed := closed_inParens h

theorem isClosed_call {name : String} (hn : Inert name.toList) (h : ∀ e ∈ es, e.IsClosed) :
    (call name es).IsClosed := by
  have hargs := closed_inParens (closed_row closed_separator h)
  simpa [Expr.IsClosed] using hn.closed.append hargs

theorem isClosed_binary {op : String} (hl : low.IsClosed) (ho : Inert op.toList)
    (hr : high.IsClosed) : (binary low op high).IsClosed := by
  have hop : Closed (render (spaced (.operator op))) := closed_spaced ho.closed
  have hall := (Closed.append hl hop).append hr
  simpa [Expr.IsClosed] using hall

theorem isClosed_membership {op : String} (he : e.IsClosed) (ho : Inert op.toList)
    (h : ∀ v ∈ es, v.IsClosed) : (membership e op es).IsClosed := by
  have hop : Closed (render (spaced (.operator op))) := closed_spaced ho.closed
  have hall := (Closed.append he hop).append (closed_inParens (closed_row closed_separator h))
  simpa [Expr.IsClosed] using hall

theorem isClosed_range {op : String} (he : e.IsClosed) (ho : Inert op.toList)
    (hl : low.IsClosed) (hh : high.IsClosed) : (range e op low high).IsClosed := by
  have hop : Closed (render (spaced (.operator op))) := closed_spaced ho.closed
  have hdots : Closed (render (spaced (.mark .range))) :=
    (by decide : Inert (render (spaced (.mark .range)))).closed
  have hin : Closed (render (low.tokens ++ spaced (.mark .range) ++ high.tokens)) := by
    rw [render_append, render_append]
    exact (Closed.append hl hdots).append hh
  have hall := (Closed.append he hop).append (closed_inParens hin)
  simpa [Expr.IsClosed] using hall

theorem isClosed_logical (c : Connective) (h : ∀ e ∈ es, e.IsClosed) :
    (logical c es).IsClosed := by
  have hword : Closed (Token.keyword (.connective c)).chars := by
    cases c with
    | all => exact (by decide : Inert "and".toList).closed
    | any => exact (by decide : Inert "or".toList).closed
  have hrow := closed_row (closed_spaced hword) h
  simpa [Expr.IsClosed] using hrow

theorem isClosed_combined (c : Connective) (h : ∀ e ∈ es, e.IsClosed) :
    (combined c es).IsClosed := by
  unfold combined
  split
  · exact h _ (by simp)
  · exact isClosed_logical c h

theorem closed_realChars (x : Number.Binary64) : Closed (realChars x) := by
  have hreal : Inert "real".toList := by decide
  cases x with
  | finite x => exact (inert_finite _ x).closed
  | infinite negative =>
    cases negative with
    | false => exact hreal.closed.append (by decide : Inert "+inf".toList).closed.parens
    | true => exact hreal.closed.append (by decide : Inert "-inf".toList).closed.parens
  | nan => exact hreal.closed.append (by decide : Inert "nan".toList).closed.parens

theorem isClosed_literal {l : Literal} (h : l.IsWritten) : (literal l).IsClosed := by
  cases l with
  | int n => simpa [Expr.IsClosed, Literal.token] using (inert_intText n).closed
  | real x => simpa [Expr.IsClosed, Literal.token] using closed_realChars x
  | text s => simpa [Expr.IsClosed, Literal.token] using closed_quoted s
  | bool b =>
    have hb : Inert (boolChars b) := by cases b <;> decide
    simpa [Expr.IsClosed, Literal.token] using hb.closed
  | dateTime s =>
    have hword : Inert "datetime".toList := by decide
    have hs : Inert s.toList := h
    have hall := hword.closed.append hs.closed.parens
    simpa [Expr.IsClosed, Literal.token] using hall
  | timeSpan s =>
    have hs : Inert s.toList := h
    simpa [Expr.IsClosed, Literal.token] using hs.closed

end Forms

end Expr

end Kusto.Kql

namespace Kusto.Compile

open Draft (Scalar Condition Aggregation Grouping Clause)
open Kql (Expr Literal Inert Closed)
open Kql.Expr

/-! ## Constants -/

section Constants

variable {name : String} {type : ValueType} {v : Scalar} {l : Literal} {e : Expr}

theorem isWritten_number (h : number? v = some l) : l.IsWritten := by
  rcases number_cases h with ⟨n, rfl⟩ | ⟨x, rfl⟩
  · trivial
  · trivial

theorem isWritten_truth (h : truth? v = some l) : l.IsWritten := by
  obtain ⟨b, rfl, -⟩ := truth_cases h
  trivial

/-- **Constants are closed**, whatever the user typed. -/
theorem isClosed_constant (h : constant? type v = some e) : e.IsClosed := by
  cases isConstant_of_constant h with
  | text => exact isClosed_literal trivial
  | template _ hvariable => exact isClosed_template (Kql.inert_of_isTemplateVariable hvariable)
  | number _ hl => exact isClosed_literal (isWritten_number hl)
  | boolean _ hl => exact isClosed_literal (isWritten_truth hl)
  | relative _ hrelative => exact isClosed_verbatim (Kql.closed_of_isRelativeTime hrelative)
  | dateTime _ hdate => exact isClosed_literal (Kql.inert_of_isDateTime hdate)
  | timeSpan _ hspan => exact isClosed_literal (Kql.inert_of_isTimespanLiteral hspan)

theorem isClosed_operand (h : operand name type v = .ok e) : e.IsClosed :=
  isClosed_constant (constant_of_operand h)

end Constants

/-! ## Conditions -/

section Conditions

variable {ctx : Context} {e : Expr}

theorem isClosed_reference (p : Property) : (reference ctx p).IsClosed := by
  have hname : ∀ t : ValueType, Inert t.conversion.toList := fun t => by cases t <;> decide
  unfold reference
  split
  · refine isClosed_call (hname p.type) fun e he => ?_
    obtain rfl := List.mem_singleton.mp he
    exact isClosed_path _ _
  · exact isClosed_column p.name

theorem isClosed_comparing {column : Expr} {op : String} {P : Expr → Prop}
    (hcol : column.IsClosed) (ho : Inert op.toList) (hP : ∀ v, P v → v.IsClosed)
    (h : Comparing column op P e) : e.IsClosed := by
  cases h with
  | call => exact isClosed_call ho fun e he => by rwa [List.mem_singleton.mp he]
  | binary hv => exact isClosed_binary hcol ho (hP _ hv)
  | membership hvs => exact isClosed_membership hcol ho fun v hv => hP v (hvs v hv)
  | range hl hh => exact isClosed_range hcol ho (hP _ hl) (hP _ hh)

theorem inert_of_mem_operators {o : FilterOperator} (h : o ∈ FilterOperator.all) :
    Inert o.name.toList :=
  (by decide : ∀ o ∈ FilterOperator.all, Inert o.name.toList) o h

theorem isClosed_condition {c : Condition} (h : condition ctx c = .ok e) : e.IsClosed := by
  obtain ⟨o, ho, hform⟩ := comparing_of_condition h
  refine isClosed_comparing (isClosed_reference c.property) (inert_of_mem_operators ho)
    (fun v hv => ?_) hform
  obtain ⟨x, hx⟩ := hv
  exact isClosed_constant hx

/-- A result is closed if it is an expression that is; a marker always is. -/
theorem isClosed_ofResult {r : Except Warning Expr} (h : ∀ e, r = .ok e → e.IsClosed) :
    (Piece.ofResult r).expr.IsClosed := by
  cases r with
  | ok e => exact h e rfl
  | error w => exact isClosed_marker w.message

variable {q : Piece}

theorem isClosed_conditionPiece {c : Condition} (h : conditionPiece? ctx c = some q) :
    q.expr.IsClosed := by
  unfold conditionPiece? at h
  split at h
  · obtain rfl := Option.some.inj h
    exact isClosed_ofResult fun e he => isClosed_condition he
  · exact absurd h (by simp)

/-- Expressions of closed pieces are closed. -/
theorem isClosed_pieces {α : Type} {f : α → Option Piece} {xs : List α}
    (h : ∀ x q, f x = some q → q.expr.IsClosed) :
    ∀ e ∈ (xs.filterMap f).map Piece.expr, e.IsClosed := by
  intro e he
  obtain ⟨q, hq, rfl⟩ := List.mem_map.mp he
  obtain ⟨x, -, hx⟩ := List.mem_filterMap.mp hq
  exact h x q hx

theorem isClosed_alternatives {g : Clause Condition} (h : alternativesPiece? ctx g = some q) :
    q.expr.IsClosed := by
  unfold alternativesPiece? at h
  dsimp only at h
  split at h
  · exact absurd h (by simp)
  · obtain rfl := Option.some.inj h
    exact isClosed_paren (isClosed_combined _ (isClosed_pieces fun c q => isClosed_conditionPiece))

end Conditions

/-! ## Aggregations and grouping keys -/

section Summaries

variable {ctx : Context} {q : Piece}

theorem isClosed_argument {f : Aggregate} {ps : List Draft.Parameter}
    (h : q ∈ argumentPieces f ps) : q.expr.IsClosed := by
  rcases argument_cases h with ⟨r, -, rfl⟩ | ⟨missing, rfl⟩
  · exact isClosed_ofResult fun e he => isClosed_operand he
  · exact isClosed_marker _

theorem inert_of_find_aggregate {name : String} {f : Aggregate}
    (h : Aggregate.find? name = some f) : Inert f.name.toList :=
  (by decide : ∀ f ∈ Aggregate.all, Inert f.name.toList) f (List.mem_of_find?_eq_some h)

theorem isClosed_aggregation {a : Aggregation} (h : aggregationPiece? ctx a = some q) :
    q.expr.IsClosed := by
  rcases aggregation_cases h with ⟨-, rfl⟩ | ⟨f, hf, ⟨-, rfl⟩ | ⟨-, rfl⟩⟩
  · exact isClosed_marker _
  · exact isClosed_call (inert_of_find_aggregate hf) (by simp)
  · refine isClosed_call (inert_of_find_aggregate hf) fun e he => ?_
    rcases List.mem_cons.mp he with rfl | he
    · exact isClosed_reference a.property
    · obtain ⟨r, hr, rfl⟩ := List.mem_map.mp he
      exact isClosed_argument hr

theorem isClosed_width {s : String} {e : Expr} (h : width? s = some e) : e.IsClosed := by
  unfold width? at h
  split at h
  · rename_i hvar
    obtain rfl := Option.some.inj h
    refine isClosed_template ?_
    rw [Text.toList_trim]
    exact Kql.inert_of_isVariable hvar
  · split at h
    · rename_i hspan
      obtain rfl := Option.some.inj h
      refine isClosed_literal ?_
      show Inert (trim s).toList
      rw [Text.toList_trim]
      exact Kql.inert_of_isTimespan hspan
    · exact absurd h (by simp)

theorem isClosed_grouping {g : Grouping} (h : groupingPiece? ctx g = some q) :
    q.expr.IsClosed := by
  have hcol : (reference ctx g.property).IsClosed := isClosed_reference g.property
  rcases grouping_cases h with rfl | ⟨w, hw, rfl⟩ | rfl
  · exact hcol
  · refine isClosed_call (by decide) fun e he => ?_
    rcases List.mem_cons.mp he with rfl | he
    · exact hcol
    · rw [List.mem_singleton.mp he]
      exact isClosed_width hw
  · exact isClosed_marker _

end Summaries

end Kusto.Compile
