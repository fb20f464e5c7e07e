import Kusto.Proofs.Compile.Marker
import Kusto.Proofs.Compile.Operand
import Kusto.Proofs.Kql.Predicate

/-!
# Places — where the values of a draft stand in its query

A value is given at a place: in the operand list of a condition, or in the arguments of an
aggregation.  If the operator or the function reads the place, then either the query is written with
an expression there, and it is the value as a constant of its type (`Place.IsWritten.constant`), or
there is a marker with a warning about an invalid value (`Place.isWritten_or_isMarked`).  Both are
parts of the query (`Place.IsWritten.infix_tokens`, `Place.IsMarked.infix_tokens`), and the warning
is one of the query's (`Place.IsMarked.mem_warnings`).
-/

open Kusto.Text (joinWith joinWith_cons)

namespace Kusto.Kql

/-! ## Tokens inside of tokens -/

section Inside

theorem infix_joinWith {α : Type} {sep x : List α} {xs : List (List α)} (h : x ∈ xs) :
    x <:+: joinWith sep xs := by
  induction xs with
  | nil => exact absurd h List.not_mem_nil
  | cons y xs ih =>
    by_cases hne : xs = []
    · subst hne
      rw [List.mem_singleton.mp h]
      exact List.infix_rfl
    · rw [joinWith_cons _ _ hne]
      rcases List.mem_cons.mp h with rfl | h
      · exact ⟨[], sep ++ joinWith sep xs, by simp⟩
      · exact (ih h).trans (List.suffix_append _ _).isInfix

theorem infix_render {ts us : List Token} (h : ts <:+: us) : render ts <:+: render us := by
  obtain ⟨before, after, rfl⟩ := h
  exact ⟨render before, render after, by simp⟩

theorem infix_inParens (ts : List Token) : ts <:+: Expr.inParens ts :=
  ⟨[.mark .openParen], [.mark .closeParen], rfl⟩

namespace Expr

/-- The arguments of a call. -/
def arguments : Expr → List Expr
  | call _ args => args
  | _ => []

/-- The expression is a marker. -/
def isMarker : Expr → Bool
  | marker _ => true
  | _ => false

variable {x e : Expr} {es : List Expr}

theorem infix_operands (h : x ∈ e.operands) : x.tokens <:+: e.tokens := by
  cases e with
  | binary left op right =>
    rw [List.mem_singleton.mp h]
    exact (List.suffix_append _ _).isInfix
  | membership subject op values =>
    rw [tokens_membership]
    have hrow : x.tokens <:+: joinWith separator (values.map tokens) :=
      infix_joinWith (List.mem_map_of_mem (f := tokens) h)
    exact (hrow.trans (infix_inParens _)).trans (List.suffix_append _ _).isInfix
  | range subject op low high =>
    rw [tokens_range]
    refine List.IsInfix.trans ?_ (List.suffix_append _ _).isInfix
    refine List.IsInfix.trans ?_ (infix_inParens _)
    -- the lower bound is in front of the two dots and the upper one behind them
    rcases List.mem_cons.mp h with rfl | h
    · rw [List.append_assoc]
      exact (List.prefix_append _ _).isInfix
    · rw [List.mem_singleton.mp h]
      exact (List.suffix_append _ _).isInfix
  | column | path | literal | call | logical | paren | template | marker | verbatim =>
    exact absurd h List.not_mem_nil

theorem infix_arguments (h : x ∈ e.arguments) : x.tokens <:+: e.tokens := by
  cases e with
  | call name args =>
    rw [tokens_call]
    have hrow : x.tokens <:+: joinWith separator (args.map tokens) :=
      infix_joinWith (List.mem_map_of_mem (f := tokens) h)
    exact (hrow.trans (infix_inParens _)).trans (List.suffix_cons _ _).isInfix
  | column | path | literal | binary | membership | range | logical | paren | template | marker
    | verbatim => exact absurd h List.not_mem_nil

theorem infix_combined (c : Connective) (h : x ∈ es) : x.tokens <:+: (combined c es).tokens := by
  rw [Reader.tokens_combined]
  exact infix_joinWith (List.mem_map_of_mem (f := tokens) h)

end Expr

theorem infix_summarize {e : Expr} {aggregates keys : List Expr} (h : e ∈ aggregates) :
    e.tokens <:+: (Stage.summarize aggregates keys).tokens := by
  have hrow : e.tokens <:+: Stage.listTokens aggregates :=
    (List.suffix_cons Token.space e.tokens).isInfix.trans
      (infix_joinWith (List.mem_map_of_mem (f := fun e => .space :: e.tokens) h))
  obtain ⟨before, after, hrow⟩ := hrow
  exact ⟨.keyword .summarize :: before, after ++ if keys.isEmpty then [] else
    .space :: .keyword .groupBy :: Stage.listTokens keys, by
      simp only [Stage.tokens, ← hrow, List.cons_append, List.append_assoc]⟩

/-- The tokens of a stage stand in its pipeline. -/
theorem infix_stage {p : Pipeline} {s : Stage} (h : s ∈ p.stages) : s.tokens <:+: p.tokens := by
  obtain ⟨before, after, hstages⟩ := List.append_of_mem h
  refine ⟨p.source.tokens ++ before.flatMap (fun s => Pipeline.bar ++ s.tokens) ++ Pipeline.bar,
    after.flatMap fun s => Pipeline.bar ++ s.tokens, ?_⟩
  simp [Pipeline.tokens, hstages, List.append_assoc]

end Inside

end Kusto.Kql

namespace Kusto.Compile

open Draft (Scalar Condition Aggregation Clause)
open Kql (Expr Stage infix_stage infix_summarize infix_inParens)

/-- A place for a value: the places of a condition and of an aggregation are counted from zero. -/
inductive Place where
  | condition (c : Condition) (i : ℕ)
  | argument (a : Aggregation) (i : ℕ)

namespace Place

/-- The place is one of the draft. -/
def IsIn (d : Draft) : Place → Prop
  | condition c _ => c ∈ conditions d
  | argument a _ => a ∈ d.aggregations.items

/-- The value that is given at the place, and its type. -/
def value? : Place → Option (ValueType × Scalar)
  | condition c i => (operands c)[i]?.map fun v => (c.property.type, v)
  | argument a i => a.parameters[i]?.map fun p => (p.type, p.value)

/-- A complete condition by an operator for values of its type reads the places of its operands,
an operator of one operand the first place alone.  A function of a column reads all arguments. -/
def IsRead : Place → Prop
  | condition c i => isComplete c ∧ ∃ o, FilterOperator.find? (Text.trim c.operator.name) = some o ∧
    o.supports c.property.type ∧ o.form ≠ .call ∧ (o.form = .single → i = 0)
  | argument a _ => ¬ Text.isBlankText a.property.name ∧ a.property.name ≠ "*" ∧
    ∃ f, Aggregate.find? (Text.trim a.function.name) = some f ∧ f.takesColumn

variable (ctx : Context)

/-- The expression is written at the place. -/
def IsWritten (x : Expr) : Place → Prop
  | condition c i => ∃ e, conditionPiece? ctx c = some ⟨e, []⟩ ∧ e.operands[i]? = some x
  | argument a i => ∃ q, aggregationPiece? ctx a = some q ∧ q.expr.arguments[i + 1]? = some x ∧
    x.isMarker = false

/-- A marker with the warning takes the place, or the whole condition. -/
def IsMarked (w : Warning) : Place → Prop
  | condition c _ => conditionPiece? ctx c = some (.ofResult (.error w))
  | argument a i => ∃ q, aggregationPiece? ctx a = some q ∧
    q.expr.arguments[i + 1]? = some (.marker w.message) ∧ w ∈ q.warnings

end Place

/-! ## What is written at a place -/

section Values

variable {ctx : Context} {c : Condition} {a : Aggregation} {q : Piece} {e x : Expr} {pl : Place}
  {type : ValueType} {v : Scalar} {w : Warning}

/-- A piece without a warning is what has been written. -/
theorem ok_of_ofResult {r : Except Warning Expr} (h : Piece.ofResult r = ⟨e, []⟩) : r = .ok e := by
  cases r with
  | ok y => exact congrArg Except.ok (congrArg Piece.expr h)
  | error w => exact absurd (congrArg Piece.warnings h) (by simp [Piece.ofResult])

theorem condition_of_piece (h : conditionPiece? ctx c = some ⟨e, []⟩) :
    condition ctx c = .ok e := by
  unfold conditionPiece? at h
  split at h
  · exact ok_of_ofResult (Option.some.inj h)
  · exact absurd h (by simp)

theorem operands_call {o : FilterOperator} {p : Property} {values : List Scalar}
    (hform : o.form = .call) (h : comparison ctx o p values = .ok e) : e.operands = [] := by
  unfold comparison at h
  rw [hform] at h
  obtain rfl := Except.ok.inj h
  rfl

/-- The operands of a condition are the values at its front as constants. -/
theorem areConstants_of_condition (h : condition ctx c = .ok e) :
    ∃ kept, kept <+: operands c ∧ AreConstants c.property.type kept e.operands := by
  unfold condition at h
  dsimp only at h
  split at h
  · rename_i o _
    by_cases hcall : o.form = .call
    · rw [operands_call hcall h]
      exact ⟨[], List.nil_prefix, .nil⟩
    · by_cases hsingle : o.form = .single
      · obtain ⟨v, rest, y, hvalues, hy, rfl⟩ := single_of_comparison hsingle h
        rw [hvalues]
        exact ⟨[v], ⟨rest, rfl⟩, .cons hy .nil⟩
      · exact ⟨operands c, List.prefix_rfl, areConstants_of_comparison hcall hsingle h⟩
  · exact absurd h (by simp)

/-- Of values and the constants that they are written as, each stands at the place of the other. -/
theorem AreConstants.exists_value {values : List Scalar} {es : List Expr}
    (h : AreConstants type values es) {i : ℕ} (hx : es[i]? = some x) :
    ∃ v, values[i]? = some v ∧ constant? type v = some x := by
  obtain ⟨hi, hget⟩ := List.getElem?_eq_some_iff.mp hx
  have hlt : i < values.length := by rwa [h.length_eq]
  have hboth := h.get hlt hi
  rw [List.get_eq_getElem, List.get_eq_getElem, hget] at hboth
  exact ⟨values[i], List.getElem?_eq_getElem hlt, hboth⟩

theorem AreConstants.exists_expr {values : List Scalar} {es : List Expr}
    (h : AreConstants type values es) {i : ℕ} (hv : values[i]? = some v) :
    ∃ x, es[i]? = some x := by
  obtain ⟨hi, -⟩ := List.getElem?_eq_some_iff.mp hv
  rw [h.length_eq] at hi
  exact ⟨es[i], List.getElem?_eq_getElem hi⟩

theorem argumentPieces_getElem? {f : Aggregate} {ps : List Draft.Parameter} {p : Draft.Parameter}
    {i : ℕ} (hp : ps[i]? = some p) :
    (argumentPieces f ps)[i]? = some (.ofResult (operand p.name p.type p.value)) := by
  have hlt : i < ps.length := (List.getElem?_eq_some_iff.mp hp).1
  unfold argumentPieces
  dsimp only
  split
  · rw [List.getElem?_append_left (by simpa using hlt), List.getElem?_map, hp]
    rfl
  · rw [List.getElem?_map, hp]
    rfl

/-- Where an aggregation has arguments, they are those of a function of the catalog. -/
theorem arguments_of_aggregation (h : aggregationPiece? ctx a = some q)
    (hne : q.expr.arguments ≠ []) : ∃ f, q.expr.arguments = reference ctx a.property ::
      (argumentPieces f a.parameters).map Piece.expr := by
  rcases aggregation_cases h with ⟨-, rfl⟩ | ⟨f, -, ⟨-, rfl⟩ | ⟨-, rfl⟩⟩
  · exact absurd rfl hne
  · exact absurd rfl hne
  · exact ⟨f, rfl⟩

theorem isMarker_of_isAtom (h : x.IsAtom) : x.isMarker = false := by
  cases x with
  | literal | template | verbatim => rfl
  | column | path | binary | call | membership | range | logical | paren | marker =>
    exact absurd h (by simp [Expr.IsAtom])

namespace Place

/-- **What is written at a place is its value** as a constant of its type. -/
theorem IsWritten.constant (h : pl.IsWritten ctx x) :
    ∃ type v, pl.value? = some (type, v) ∧ constant? type v = some x := by
  cases pl with
  | condition c i =>
    obtain ⟨e, he, hx⟩ := h
    -- the operands stand for the first of the values, so a place counts the same in both
    obtain ⟨kept, ⟨rest, hkept⟩, hall⟩ := areConstants_of_condition (condition_of_piece he)
    obtain ⟨v, hv, hconstant⟩ := hall.exists_value hx
    refine ⟨c.property.type, v, ?_, hconstant⟩
    have hlt := (List.getElem?_eq_some_iff.mp hv).1
    rw [value?, ← hkept, List.getElem?_append_left hlt, hv]
    rfl
  | argument a i =>
    obtain ⟨q, hq, hx, hmarker⟩ := h
    have hne : q.expr.arguments ≠ [] := by
      intro hnil
      rw [hnil] at hx
      exact absurd hx (by simp)
    obtain ⟨f, harguments⟩ := arguments_of_aggregation hq hne
    -- in front of the arguments stands the column, so they are one place further on
    rw [harguments, List.getElem?_cons_succ, List.getElem?_map] at hx
    obtain ⟨y, hy, rfl⟩ := Option.map_eq_some_iff.mp hx
    rcases argument_getElem? hy with ⟨p, hp, rfl⟩ | ⟨missing, rfl⟩
    · refine ⟨p.type, p.value, by rw [value?, hp]; rfl, ?_⟩
      cases hresult : operand p.name p.type p.value with
      | ok y => exact constant_of_operand hresult
      | error w =>
        rw [hresult] at hmarker
        exact absurd hmarker (by simp [Piece.ofResult, Expr.isMarker])
    · exact absurd hmarker (by simp [Piece.ofResult, Expr.isMarker])

theorem IsWritten.constant_of_value (h : pl.IsWritten ctx x)
    (hvalue : pl.value? = some (type, v)) : constant? type v = some x := by
  obtain ⟨type', v', hvalue', hconstant⟩ := h.constant
  obtain ⟨rfl, rfl⟩ := Prod.mk.inj (Option.some.inj (hvalue.symm.trans hvalue'))
  exact hconstant

end Place

theorem ne_empty_of_find {name : String} {f : Aggregate} (h : Aggregate.find? name = some f) :
    name ≠ "" := by
  rintro rfl
  rw [show Aggregate.find? "" = none by decide] at h
  exact absurd h (by simp)

variable (ctx) in
/-- An aggregation that reads its arguments is written with all of them. -/
theorem aggregation_of_find {f : Aggregate} (hname : ¬ Text.isBlankText a.property.name)
    (hstar : a.property.name ≠ "*") (hfind : Aggregate.find? (Text.trim a.function.name) = some f)
    (hcolumn : f.takesColumn) : aggregationPiece? ctx a =
      some ⟨.call f.name (reference ctx a.property ::
          (argumentPieces f a.parameters).map Piece.expr),
        mismatches f a.property ++ Piece.allWarnings (argumentPieces f a.parameters)⟩ := by
  unfold aggregationPiece?
  dsimp only
  rw [if_neg (ne_empty_of_find hfind), hfind]
  dsimp only
  rw [if_neg (by simp [hcolumn]), if_neg (by simp [hname, hstar])]

namespace Place

theorem condition_outcome {c : Condition} {i : ℕ} (hread : (condition c i).IsRead)
    (hvalue : (condition c i).value? = some (type, v)) :
    (∃ x, (condition c i).IsWritten ctx x) ∨
      ∃ name text, (condition c i).IsMarked ctx (.invalid name text type) := by
  obtain ⟨hcomplete, o, hfind, hsupports, hcall, hfirst⟩ := hread
  obtain ⟨v', hv, hpair⟩ := Option.map_eq_some_iff.mp hvalue
  obtain ⟨rfl, rfl⟩ := Prod.mk.inj hpair
  have hpiece := conditionPiece_of_find ctx hcomplete hfind hsupports
  cases hcomparison : comparison ctx o c.property (operands c) with
  | error w =>
    obtain ⟨text, rfl⟩ := invalid_of_comparison hcomparison
    exact .inr ⟨c.property.name, text, by rw [IsMarked, hpiece, hcomparison]⟩
  | ok e =>
    refine .inl ?_
    have hwritten : conditionPiece? ctx c = some ⟨e, []⟩ := by
      rw [hpiece, hcomparison]
      rfl
    -- an operator of one value writes the first, and no other place of it is read
    by_cases hsingle : o.form = .single
    · obtain ⟨-, -, y, -, -, rfl⟩ := single_of_comparison hsingle hcomparison
      obtain rfl := hfirst hsingle
      exact ⟨y, _, hwritten, rfl⟩
    · have hall := areConstants_of_comparison hcall hsingle hcomparison
      obtain ⟨x, hx⟩ := hall.exists_expr hv
      exact ⟨x, e, hwritten, hx⟩

theorem argument_outcome {a : Aggregation} {i : ℕ} (hread : (argument a i).IsRead)
    (hvalue : (argument a i).value? = some (type, v)) :
    (∃ x, (argument a i).IsWritten ctx x) ∨
      ∃ name text, (argument a i).IsMarked ctx (.invalid name text type) := by
  obtain ⟨hname, hstar, f, hfind, hcolumn⟩ := hread
  obtain ⟨p, hp, hpair⟩ := Option.map_eq_some_iff.mp hvalue
  obtain ⟨rfl, rfl⟩ := Prod.mk.inj hpair
  have hpiece := aggregation_of_find ctx hname hstar hfind hcolumn
  have hargument := argumentPieces_getElem? (f := f) hp
  have hexpr : (reference ctx a.property ::
      (argumentPieces f a.parameters).map Piece.expr)[i + 1]? =
        some (Piece.ofResult (operand p.name p.type p.value)).expr := by
    rw [List.getElem?_cons_succ, List.getElem?_map, hargument]
    rfl
  cases hresult : operand p.name p.type p.value with
  | ok x =>
    rw [hresult] at hexpr
    exact .inl ⟨x, _, hpiece, hexpr,
      isMarker_of_isAtom (isAtom_constant (constant_of_operand hresult))⟩
  | error w =>
    obtain rfl := invalid_of_operand hresult
    rw [hresult] at hexpr hargument
    -- the warning of an argument is among those of the call that it is part of
    refine .inr ⟨p.name, p.value.asText, _, hpiece, hexpr, ?_⟩
    exact List.mem_append_right _ (List.mem_flatMap.mpr
      ⟨_, List.mem_of_getElem? hargument, List.mem_singleton.mpr rfl⟩)

theorem IsWritten.condition_isRead {c : Condition} {i : ℕ}
    (h : (condition c i).IsWritten ctx x) : (condition c i).IsRead := by
  obtain ⟨e, he, hx⟩ := h
  have hcomplete : isComplete c := by
    by_contra hnot
    unfold conditionPiece? at he
    rw [if_neg hnot] at he
    exact absurd he (by simp)
  -- a marker has no operands, so there is one only if the operator is known and supports the type
  have hwritten := condition_of_piece he
  unfold Compile.condition at hwritten
  dsimp only at hwritten
  split at hwritten
  · rename_i o ho
    obtain ⟨hfind, hsupports⟩ := Option.filter_eq_some_iff.mp ho
    refine ⟨hcomplete, o, hfind, hsupports, fun hcall => ?_, fun hsingle => ?_⟩
    · rw [operands_call hcall hwritten] at hx
      exact absurd hx (by simp)
    · obtain ⟨-, -, y, -, -, rfl⟩ := single_of_comparison hsingle hwritten
      have hlt : i < 1 := (List.getElem?_eq_some_iff.mp hx).1
      omega
  · exact absurd hwritten (by simp)

theorem IsWritten.argument_isRead {a : Aggregation} {i : ℕ}
    (h : (argument a i).IsWritten ctx x) : (argument a i).IsRead := by
  obtain ⟨q, hq, hx, -⟩ := h
  rcases aggregation_cases hq with ⟨-, rfl⟩ | ⟨f, hfind, ⟨-, rfl⟩ | ⟨hcolumn, rfl⟩⟩
  · exact absurd hx (by simp [Piece.ofResult, Expr.arguments])
  · exact absurd hx (by simp [Expr.arguments])
  · have hname : ¬ (Text.isBlankText a.property.name || a.property.name = "*") := by
      intro hnone
      have hnot : ¬ (!f.takesColumn) = true := by simp [hcolumn]
      unfold aggregationPiece? at hq
      dsimp only at hq
      rw [if_neg (ne_empty_of_find hfind), hfind] at hq
      dsimp only at hq
      rw [if_neg hnot, if_pos hnone] at hq
      exact absurd hq (by simp)
    simp only [Bool.or_eq_true, decide_eq_true_eq, not_or] at hname
    exact ⟨hname.1, hname.2, f, hfind, hcolumn⟩

/-- Nothing is written at a place that is not read. -/
theorem IsWritten.isRead (h : pl.IsWritten ctx x) : pl.IsRead := by
  cases pl with
  | condition c i => exact h.condition_isRead
  | argument a i => exact h.argument_isRead

variable (ctx) in
/-- **A value that is read is not lost**: it is written, or a marker tells of an invalid value. -/
theorem isWritten_or_isMarked (hread : pl.IsRead) (hvalue : pl.value? = some (type, v)) :
    (∃ x, pl.IsWritten ctx x) ∨ ∃ name text, pl.IsMarked ctx (.invalid name text type) := by
  cases pl with
  | condition c i => exact condition_outcome hread hvalue
  | argument a i => exact argument_outcome hread hvalue

/-- Nothing is written where there is a marker. -/
theorem IsMarked.not_isWritten (h : pl.IsMarked ctx w) : ¬ pl.IsWritten ctx x := by
  cases pl with
  | condition c i =>
    rintro ⟨e, he, -⟩
    have hwarnings := congrArg Piece.warnings (Option.some.inj (h.symm.trans he))
    exact absurd hwarnings (by simp [Piece.ofResult])
  | argument a i =>
    rintro ⟨q, hq, hx, hmarker⟩
    obtain ⟨q', hq', hx', -⟩ := h
    obtain rfl := Option.some.inj (hq.symm.trans hq')
    rw [Option.some.inj (hx.symm.trans hx')] at hmarker
    exact absurd hmarker (by simp [Expr.isMarker])

end Place

end Values

/-! ## The parts of the query -/

section Occurrence

variable {ctx : Context} {d : Draft} {c : Condition} {a : Aggregation} {q : Piece} {x : Expr}
  {pl : Place} {w : Warning}

/-- Alternatives with a piece are written with all of their pieces. -/
theorem alternatives_of_mem {g : Clause Condition} (hc : c ∈ g.items)
    (hq : conditionPiece? ctx c = some q) : alternativesPiece? ctx g =
      some ⟨.paren (.combined .any ((g.items.filterMap (conditionPiece? ctx)).map Piece.expr)),
        Piece.allWarnings (g.items.filterMap (conditionPiece? ctx))⟩ :=
  if_neg fun hempty => by
    have hpiece := List.mem_filterMap.mpr ⟨c, hc, hq⟩
    rw [List.isEmpty_iff.mp hempty] at hpiece
    exact absurd hpiece List.not_mem_nil

/-- A filter with a piece is a stage with all of the pieces. -/
theorem filter_mem_stages (h : q ∈ filterPieces ctx d) :
    .filter (.combined .all ((filterPieces ctx d).map Piece.expr)) ∈ (pipeline ctx d).stages := by
  have hfilter : filter? ctx d = some (.combined .all ((filterPieces ctx d).map Piece.expr)) :=
    if_neg fun hempty => by
      have hpiece := List.mem_map_of_mem (f := Piece.expr) h
      rw [List.isEmpty_iff.mp hempty] at hpiece
      exact absurd hpiece List.not_mem_nil
  rw [stages_pipeline, hfilter]
  simp

/-- A summary with an aggregation is a stage with all of the aggregations. -/
theorem summarize_mem_stages (h : q ∈ aggregationPieces ctx d) :
    .summarize ((aggregationPieces ctx d).map Piece.expr)
      ((groupingPieces ctx d).map Piece.expr) ∈ (pipeline ctx d).stages :=
  summarize_mem_stages_of_ne (.inl (List.ne_nil_of_mem h))

/-- What is written for a condition stands in the query. -/
theorem infix_condition (hc : c ∈ conditions d) (hq : conditionPiece? ctx c = some q) :
    q.expr.tokens <:+: (pipeline ctx d).tokens := by
  obtain ⟨g, hg, hc⟩ := List.mem_flatMap.mp hc
  have hpiece : q.expr ∈ (g.items.filterMap (conditionPiece? ctx)).map Piece.expr :=
    List.mem_map_of_mem (List.mem_filterMap.mpr ⟨c, hc, hq⟩)
  have hgroup := List.mem_filterMap.mpr ⟨g, hg, alternatives_of_mem hc hq⟩
  have hpredicate := ((Expr.infix_combined .any hpiece).trans (infix_inParens _)).trans
    (Expr.infix_combined .all (List.mem_map_of_mem (f := Piece.expr) hgroup))
  exact (hpredicate.trans (List.suffix_append [_, _] _).isInfix).trans
    (infix_stage (filter_mem_stages hgroup))

/-- What is written for an aggregation stands in the query. -/
theorem infix_aggregation (ha : a ∈ d.aggregations.items) (hq : aggregationPiece? ctx a = some q) :
    q.expr.tokens <:+: (pipeline ctx d).tokens := by
  have hpiece : q ∈ aggregationPieces ctx d := List.mem_filterMap.mpr ⟨a, ha, hq⟩
  exact (infix_summarize (List.mem_map_of_mem hpiece)).trans
    (infix_stage (summarize_mem_stages hpiece))

namespace Place

/-- **What is written at a place stands in the query** with all of its tokens. -/
theorem IsWritten.infix_tokens (hin : pl.IsIn d) (h : pl.IsWritten ctx x) :
    x.tokens <:+: (pipeline ctx d).tokens := by
  cases pl with
  | condition c i =>
    obtain ⟨e, he, hx⟩ := h
    exact (Expr.infix_operands (List.mem_of_getElem? hx)).trans (infix_condition hin he)
  | argument a i =>
    obtain ⟨q, hq, hx, -⟩ := h
    exact (Expr.infix_arguments (List.mem_of_getElem? hx)).trans (infix_aggregation hin hq)

theorem IsWritten.infix_query (hin : pl.IsIn d) (h : pl.IsWritten ctx x) :
    Kql.render x.tokens <:+: (compile ctx d).query.toList := by
  have htext : (compile ctx d).query.toList = Kql.render (pipeline ctx d).tokens :=
    String.toList_ofList ..
  rw [htext]
  exact Kql.infix_render (h.infix_tokens hin)

/-- **A marker stands in the query**, and its warning is among the warnings. -/
theorem IsMarked.infix_tokens (hin : pl.IsIn d) (h : pl.IsMarked ctx w) :
    [.comment w.message] <:+: (pipeline ctx d).tokens := by
  cases pl with
  | condition c i => exact infix_condition hin h
  | argument a i =>
    obtain ⟨q, hq, hx, -⟩ := h
    exact (Expr.infix_arguments (List.mem_of_getElem? hx)).trans (infix_aggregation hin hq)

theorem IsMarked.mem_warnings (hin : pl.IsIn d) (h : pl.IsMarked ctx w) :
    w ∈ (compile ctx d).warnings := by
  change w ∈ warnings ctx d
  rw [conditions_warnings]
  cases pl with
  | condition c i =>
    have hw : w ∈ conditionWarnings ctx c := by
      rw [conditionWarnings, show conditionPiece? ctx c = _ from h]
      exact List.mem_singleton.mpr rfl
    exact List.mem_append_left _ (List.mem_append_right _ (List.mem_flatMap.mpr ⟨c, hin, hw⟩))
  | argument a i =>
    obtain ⟨q, hq, -, hw⟩ := h
    have hpiece : q ∈ aggregationPieces ctx d := List.mem_filterMap.mpr ⟨a, hin, hq⟩
    exact List.mem_append_right _ (List.mem_append_left _ (List.mem_flatMap.mpr ⟨q, hpiece, hw⟩))

end Place

end Occurrence

end Kusto.Compile
