import Kusto.Compile.Query
import Kusto.Proofs.Outcome

/-!
# Forms — what the parts of a draft are compiled to

Each part of a draft is compiled to one of a few forms, and the cases are listed here once: a
constant is an atom, a condition compares a column with atoms, an aggregation calls a function of
the catalog over a column, a grouping key is a column or a bin of it.  The stages of a pipeline are
those of its parts.
-/

open Kusto.Text (trim)

namespace Kusto.Kql.Expr

/-- The expression is a constant, a template variable or a text as it stands. -/
def IsAtom : Expr → Prop
  | literal _ | template _ | verbatim _ => True
  | _ => False

end Kusto.Kql.Expr

namespace Kusto.Compile

open Draft (Scalar Condition Aggregation Grouping Clause)
open Kql (Expr Literal Pipeline Stage)

/-- Parts that may be left out, one after the other, come to what each of them comes to. -/
theorem flatMap_filterMap {α β γ : Type} (f : α → Option β) (g : β → List γ) (xs : List α) :
    (xs.filterMap f).flatMap g = xs.flatMap fun x => (f x).elim [] g := by
  induction xs with
  | nil => rfl
  | cons x xs ih =>
    rw [List.flatMap_cons, ← ih]
    cases hx : f x with
    | none => rw [List.filterMap_cons_none hx, Option.elim_none, List.nil_append]
    | some q => rw [List.filterMap_cons_some hx, Option.elim_some, List.flatMap_cons]

/-! ## Constants -/

section Constants

variable {name : String} {type : ValueType} {v : Scalar} {e : Expr}

/-- Of the reals only the finite ones are literals. -/
theorem finite_of_finiteLiteral {x : Number.Binary64} {l : Literal}
    (h : finiteLiteral? x = some l) : ∃ y, x = .finite y ∧ l = .real (.finite y) := by
  cases x with
  | finite y => exact ⟨y, rfl, (Option.some.inj h).symm⟩
  | infinite | nan => exact absurd h (by simp [finiteLiteral?])

/-- A number is an integer or a finite real. -/
theorem number_cases {l : Literal} (h : number? v = some l) :
    (∃ n, l = .int n) ∨ ∃ x, l = .real (.finite x) := by
  have hreal : ∀ x, finiteLiteral? x = some l → ∃ y, l = .real (.finite y) := fun x hx =>
    (finite_of_finiteLiteral hx).imp fun _ => And.right
  cases v with
  | bool b => exact absurd h (by simp [number?])
  | number n =>
    unfold number? at h
    dsimp only at h
    split at h
    · exact .inl ⟨_, (Option.some.inj h).symm⟩
    · exact .inr (hreal _ h)
  | text s =>
    unfold number? numeral? at h
    dsimp only at h
    split at h
    · exact .inl ⟨_, (Option.some.inj h).symm⟩
    · obtain ⟨x, -, hx⟩ := Option.bind_eq_some_iff.mp h
      exact .inr (hreal x hx)

theorem truth_cases {l : Literal} (h : truth? v = some l) :
    ∃ b, l = .bool b ∧ (v = .bool b ∨ Kql.truth? v.asText = some b) := by
  unfold truth? at h
  split at h
  · exact ⟨_, (Option.some.inj h).symm, .inl rfl⟩
  · obtain ⟨b, hb, rfl⟩ := Option.map_eq_some_iff.mp h
    exact ⟨b, rfl, .inr hb⟩

/-- What a value of a type is as a constant.  A template variable stands for a value of any type but
text; there is no other constant of a function or an interval. -/
inductive IsConstant : ValueType → Scalar → Expr → Prop
  | text {v : Scalar} : IsConstant .string v (.literal (.text v.asText))
  | template {type : ValueType} {v : Scalar} (htype : type ≠ .string)
    (h : Kql.isTemplateVariable (trim v.asText)) : IsConstant type v (.template (trim v.asText))
  | number {v : Scalar} {l : Literal} (hnot : ¬ Kql.isTemplateVariable (trim v.asText))
    (h : number? v = some l) : IsConstant .number v (.literal l)
  | boolean {v : Scalar} {l : Literal} (hnot : ¬ Kql.isTemplateVariable (trim v.asText))
    (h : truth? v = some l) : IsConstant .boolean v (.literal l)
  | relative {v : Scalar} (hnot : ¬ Kql.isTemplateVariable (trim v.asText))
    (h : Kql.isRelativeTime (trim v.asText)) : IsConstant .dateTime v (.verbatim (trim v.asText))
  | dateTime {v : Scalar} (hnot : ¬ Kql.isTemplateVariable (trim v.asText))
    (h : Time.isDateTime (trim v.asText).toList) :
    IsConstant .dateTime v (.literal (.dateTime (trim v.asText)))
  | timeSpan {v : Scalar} (hnot : ¬ Kql.isTemplateVariable (trim v.asText))
    (h : Kql.isTimespanLiteral (trim v.asText)) :
    IsConstant .timeSpan v (.literal (.timeSpan (trim v.asText)))

theorem isConstant_dateTime (hnot : ¬ Kql.isTemplateVariable (trim v.asText))
    (h : dateTime? (trim v.asText) = some e) : IsConstant .dateTime v e := by
  unfold dateTime? at h
  split at h
  · rename_i hrelative
    obtain rfl := Option.some.inj h
    exact .relative hnot hrelative
  · split at h
    · rename_i hdate
      obtain rfl := Option.some.inj h
      exact .dateTime hnot hdate
    · exact absurd h (by simp)

theorem isConstant_timeSpan (hnot : ¬ Kql.isTemplateVariable (trim v.asText))
    (h : timeSpan? (trim v.asText) = some e) : IsConstant .timeSpan v e := by
  unfold timeSpan? at h
  split at h
  · rename_i hspan
    obtain rfl := Option.some.inj h
    exact .timeSpan hnot hspan
  · exact absurd h (by simp)

/-- The cases of a constant. -/
theorem isConstant_of_constant (h : constant? type v = some e) : IsConstant type v e := by
  unfold constant? at h
  dsimp only at h
  -- a text is taken as it is; for the other types a template variable goes before the type
  split at h
  · rename_i htype
    obtain rfl := Option.some.inj h
    rw [htype]
    exact .text
  · rename_i htype
    split at h
    · rename_i hvariable
      obtain rfl := Option.some.inj h
      exact .template htype hvariable
    · rename_i hnot
      cases type with
      | number =>
        obtain ⟨l, hl, rfl⟩ := Option.map_eq_some_iff.mp h
        exact .number hnot hl
      | boolean =>
        obtain ⟨l, hl, rfl⟩ := Option.map_eq_some_iff.mp h
        exact .boolean hnot hl
      | dateTime => exact isConstant_dateTime hnot h
      | timeSpan => exact isConstant_timeSpan hnot h
      | string | function | interval => exact absurd h (by simp)

theorem isAtom_constant (h : constant? type v = some e) : e.IsAtom := by
  cases isConstant_of_constant h with
  | text | template | number | boolean | relative | dateTime | timeSpan => trivial

theorem constant_of_operand (h : operand name type v = .ok e) : constant? type v = some e := by
  unfold operand at h
  split at h
  · rename_i hc
    rw [hc, Except.ok.inj h]
  · exact absurd h (by simp)

theorem invalid_of_operand {w : Warning} (h : operand name type v = .error w) :
    w = .invalid name v.asText type := by
  unfold operand at h
  split at h
  · exact absurd h (by simp)
  · exact (Except.error.inj h).symm

end Constants

/-! ## Conditions -/

section Conditions

/-- The conditions of a draft, group by group. -/
def conditions (d : Draft) : List Condition := d.filter.items.flatMap Clause.items

/-- A column compared with values all of which are in `P`. -/
inductive Comparing (column : Expr) (op : String) (P : Expr → Prop) : Expr → Prop
  | call : Comparing column op P (.call op [column])
  | binary {v : Expr} (hv : P v) : Comparing column op P (.binary column op v)
  | membership {vs : List Expr} (hvs : ∀ v ∈ vs, P v) :
    Comparing column op P (.membership column op vs)
  | range {low high : Expr} (hl : P low) (hh : P high) :
    Comparing column op P (.range column op low high)

variable {ctx : Context} {e : Expr}

theorem reference_cases (ctx : Context) (p : Property) :
    reference ctx p = .column p.name ∨
      ∃ root keys, reference ctx p = .call p.type.conversion [.path root keys] := by
  unfold reference
  split
  · rename_i root keys _
    exact .inr ⟨root, keys, rfl⟩
  · exact .inl rfl

theorem comparing_of_ok {o : FilterOperator} {p : Property} {vs : List Scalar}
    (h : comparison ctx o p vs = .ok e) :
    Comparing (reference ctx p) o.name (fun x => ∃ v, constant? p.type v = some x) e := by
  unfold comparison at h
  dsimp only at h
  -- by the form of the operator: no operand, the first value, all of them, or two bounds
  split at h
  · obtain rfl := Except.ok.inj h
    exact .call
  · cases vs with
    | nil => exact absurd h (by simp)
    | cons v vs =>
      obtain ⟨l, hl, h⟩ := exists_of_bind_ok h
      obtain rfl := Except.ok.inj h
      exact .binary ⟨v, constant_of_operand hl⟩
  · split at h
    · exact absurd h (by simp)
    · obtain ⟨ls, hls, h⟩ := exists_of_bind_ok h
      obtain rfl := Except.ok.inj h
      refine .membership fun l hl => ?_
      obtain ⟨v, -, hv⟩ := mem_of_mapM_ok hls hl
      exact ⟨v, constant_of_operand hv⟩
  · split at h
    · rename_i low high
      obtain ⟨l, hl, h⟩ := exists_of_bind_ok h
      obtain ⟨r, hr, h⟩ := exists_of_bind_ok h
      obtain rfl := Except.ok.inj h
      exact .range ⟨low, constant_of_operand hl⟩ ⟨high, constant_of_operand hr⟩
    · exact absurd h (by simp)

/-- A condition that can be written compares its column by an operator of the catalog. -/
theorem comparing_of_condition {c : Condition} (h : condition ctx c = .ok e) :
    ∃ o ∈ FilterOperator.all, Comparing (reference ctx c.property) o.name
      (fun x => ∃ v, constant? c.property.type v = some x) e := by
  unfold condition at h
  dsimp only at h
  split at h
  · rename_i o ho
    obtain ⟨hfind, -⟩ := Option.filter_eq_some_iff.mp ho
    exact ⟨o, List.mem_of_find?_eq_some hfind, comparing_of_ok h⟩
  · exact absurd h (by simp)

/-- The warning about a value, or about values that are not as many as they should be. -/
theorem invalid_of_comparison {o : FilterOperator} {p : Property} {vs : List Scalar} {w : Warning}
    (h : comparison ctx o p vs = .error w) : ∃ text, w = .invalid p.name text p.type := by
  unfold comparison at h
  dsimp only at h
  -- an operator without operands cannot fail, and each of the others may lack values
  split at h
  · exact absurd h (by simp)
  · cases vs with
    | nil => exact ⟨_, (Except.error.inj h).symm⟩
    | cons v vs =>
      rcases error_of_bind h with h | ⟨l, -, h⟩
      · exact ⟨_, invalid_of_operand h⟩
      · exact absurd h (by simp [pure, Except.pure])
  · split at h
    · exact ⟨_, (Except.error.inj h).symm⟩
    · rcases error_of_bind h with h | ⟨ls, -, h⟩
      · obtain ⟨v, -, hv⟩ := mem_of_mapM_error h
        exact ⟨_, invalid_of_operand hv⟩
      · exact absurd h (by simp [pure, Except.pure])
  · split at h
    · rcases error_of_bind h with h | ⟨l, -, h⟩
      · exact ⟨_, invalid_of_operand h⟩
      · rcases error_of_bind h with h | ⟨r, -, h⟩
        · exact ⟨_, invalid_of_operand h⟩
        · exact absurd h (by simp [pure, Except.pure])
    · exact ⟨_, (Except.error.inj h).symm⟩

end Conditions

/-! ## Summaries -/

section Summaries

variable {ctx : Context} {q : Piece}

/-- At each place stands the argument that is given there, or the marker for the missing one. -/
theorem argument_getElem? {f : Aggregate} {ps : List Draft.Parameter} {i : Nat}
    (h : (argumentPieces f ps)[i]? = some q) :
    (∃ r, ps[i]? = some r ∧ q = .ofResult (operand r.name r.type r.value)) ∨
      ∃ missing, q = .ofResult (.error (.invalid missing "<missing>" .number)) := by
  have hgiven : ∀ {q}, (ps.map fun r => Piece.ofResult (operand r.name r.type r.value))[i]? =
      some q → ∃ r, ps[i]? = some r ∧ q = .ofResult (operand r.name r.type r.value) := by
    intro q hq
    rw [List.getElem?_map] at hq
    obtain ⟨r, hr, hq⟩ := Option.map_eq_some_iff.mp hq
    exact ⟨r, hr, hq.symm⟩
  unfold argumentPieces at h
  dsimp only at h
  -- the marker for a missing argument stands behind those that are given
  split at h
  · rename_i missing _
    rw [List.getElem?_append] at h
    split at h
    · exact .inl (hgiven h)
    · exact .inr ⟨missing, List.mem_singleton.mp (List.mem_of_getElem? h)⟩
  · exact .inl (hgiven h)

theorem argument_cases {f : Aggregate} {ps : List Draft.Parameter}
    (h : q ∈ argumentPieces f ps) :
    (∃ r ∈ ps, q = .ofResult (operand r.name r.type r.value)) ∨
      ∃ missing, q = .ofResult (.error (.invalid missing "<missing>" .number)) := by
  obtain ⟨i, hi⟩ := List.mem_iff_getElem?.mp h
  rcases argument_getElem? hi with ⟨r, hr, hq⟩ | hmissing
  · exact .inl ⟨r, List.mem_of_getElem? hr, hq⟩
  · exact .inr hmissing

theorem aggregation_cases {a : Aggregation} (h : aggregationPiece? ctx a = some q) :
    (Aggregate.find? (Text.trim a.function.name) = none ∧
      q = .ofResult (.error (.unsupported a.property.name (Text.trim a.function.name)
        a.property.type))) ∨
    ∃ f, Aggregate.find? (Text.trim a.function.name) = some f ∧
      ((f.takesColumn = false ∧ q = ⟨.call f.name [], []⟩) ∨
       (f.takesColumn = true ∧
        q = ⟨.call f.name (reference ctx a.property ::
            (argumentPieces f a.parameters).map Piece.expr),
          mismatches f a.property ++ Piece.allWarnings (argumentPieces f a.parameters)⟩)) := by
  unfold aggregationPiece? at h
  dsimp only at h
  split at h
  · exact absurd h (by simp)
  · split at h
    · rename_i hf
      exact .inl ⟨hf, (Option.some.inj h).symm⟩
    · rename_i f hf
      refine .inr ⟨f, hf, ?_⟩
      -- without the column there are no further arguments either, given or not
      by_cases hcol : f.takesColumn
      · rw [if_neg (by simp [hcol])] at h
        split at h
        · exact absurd h (by simp)
        · exact .inr ⟨hcol, (Option.some.inj h).symm⟩
      · rw [if_pos (by simp [hcol])] at h
        exact .inl ⟨by simpa using hcol, (Option.some.inj h).symm⟩

theorem isAtom_width {s : String} {e : Expr} (h : width? s = some e) : e.IsAtom := by
  unfold width? at h
  split at h
  · obtain rfl := Option.some.inj h
    trivial
  · split at h
    · obtain rfl := Option.some.inj h
      trivial
    · exact absurd h (by simp)

/-- A grouping key is a column, a bin of it, or the marker that the width is none. -/
theorem grouping_cases {g : Grouping} (h : groupingPiece? ctx g = some q) :
    q = ⟨reference ctx g.property, []⟩ ∨
    (∃ w, width? (widthOf ctx g) = some w ∧
      q = ⟨.call "bin" [reference ctx g.property, w], []⟩) ∨
    q = .ofResult (.error (.invalid g.property.name (widthOf ctx g) g.property.type)) := by
  unfold groupingPiece? at h
  dsimp only at h
  split at h
  · exact absurd h (by simp)
  · split at h
    · exact .inl (Option.some.inj h).symm
    · split at h
      · rename_i w hw
        exact .inr (.inl ⟨w, hw, (Option.some.inj h).symm⟩)
      · exact .inr (.inr (Option.some.inj h).symm)

end Summaries

/-! ## Source and stages -/

section Stages

theorem source_addFilter (p : Pipeline) (f : Option Expr) :
    (addFilter p f).source = p.source := by
  cases f <;> rfl

theorem source_addLimit (p : Pipeline) (n : Option Nat) : (addLimit p n).source = p.source := by
  cases n <;> rfl

theorem source_summarize (p : Pipeline) (aggregates keys : List Expr) :
    (p.summarize aggregates keys).source = p.source := by
  unfold Pipeline.summarize
  split <;> rfl

theorem source_pipeline (ctx : Context) (d : Draft) :
    (pipeline ctx d).source = (sourceOf ctx d).1 := by
  unfold pipeline
  dsimp only
  rw [source_addLimit, source_summarize, source_addFilter, source_addFilter]

theorem stages_addFilter (p : Pipeline) (f : Option Expr) :
    (addFilter p f).stages = p.stages ++ f.toList.map Stage.filter := by
  cases f with
  | none => exact (List.append_nil _).symm
  | some e => rfl

theorem stages_addLimit (p : Pipeline) (n : Option Nat) :
    (addLimit p n).stages = p.stages ++ n.toList.map Stage.take := by
  cases n with
  | none => exact (List.append_nil _).symm
  | some n => rfl

/-- The summary of a draft, if it has one. -/
def summaryStages (ctx : Context) (d : Draft) : List Stage :=
  let aggregates := (aggregationPieces ctx d).map Piece.expr
  let keys := (groupingPieces ctx d).map Piece.expr
  if aggregates.isEmpty && keys.isEmpty then [] else [.summarize aggregates keys]

theorem stages_summarize (p : Pipeline) (aggregates keys : List Expr) :
    (p.summarize aggregates keys).stages = p.stages ++
      if aggregates.isEmpty && keys.isEmpty then [] else [.summarize aggregates keys] := by
  unfold Pipeline.summarize
  split
  · exact (List.append_nil _).symm
  · rfl

/-- The stages of a draft: the time filter, the filter, the summary and the row limit. -/
theorem stages_pipeline (ctx : Context) (d : Draft) :
    (pipeline ctx d).stages = (timeFilter? ctx).toList.map Stage.filter ++
      (filter? ctx d).toList.map Stage.filter ++ summaryStages ctx d ++
      ctx.options.limit.toList.map Stage.take := by
  unfold pipeline
  dsimp only
  rw [stages_addLimit, stages_summarize, stages_addFilter, stages_addFilter]
  rfl

/-- A draft with a part of a summary has a summary of all of its parts. -/
theorem summarize_mem_stages_of_ne {ctx : Context} {d : Draft}
    (h : aggregationPieces ctx d ≠ [] ∨ groupingPieces ctx d ≠ []) :
    .summarize ((aggregationPieces ctx d).map Piece.expr)
      ((groupingPieces ctx d).map Piece.expr) ∈ (pipeline ctx d).stages := by
  have hsummary : summaryStages ctx d = [.summarize ((aggregationPieces ctx d).map Piece.expr)
      ((groupingPieces ctx d).map Piece.expr)] :=
    if_neg fun hempty => by
      simp only [Bool.and_eq_true, List.isEmpty_iff, List.map_eq_nil_iff] at hempty
      exact h.elim (fun hne => hne hempty.1) fun hne => hne hempty.2
  rw [stages_pipeline, hsummary]
  simp

end Stages

end Kusto.Compile
