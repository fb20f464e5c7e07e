import Kusto.Proofs.Compile.Width
import Kusto.Proofs.Kql.Predicate
import Kusto.Proofs.Kql.Timespan

/-!
# Spans — whether what is recognized as a timespan is one

Nothing but recognized timespans and relative times gets into a query or the settings
(`recognized_stage`, `accepted_of_parse`), but they may have the digits of any script.  A text is
recognized exactly if it is a timespan or a relative time of the query language, unless it is
recognized and has a digit of another script than ASCII (`recognizedExactly_iff`).
-/

open Kusto.Text (joinWith joinWith_cons trim trimmed toList_trim trimmed_trimmed)

namespace Kusto.Kql

/-- A timespan is one that is recognized, a text that stands as it is is a recognized relative time,
and there are no blanks around either. -/
def Token.IsRecognized : Token → Prop
  | .timeSpan s => isTimespanLiteral s ∧ trimmed s.toList = s.toList
  | .verbatim s => isRelativeTime s ∧ trimmed s.toList = s.toList
  | _ => True

/-- All tokens are recognized. -/
def Recognized (ts : List Token) : Prop := ∀ t ∈ ts, t.IsRecognized

/-! ## Recognized tokens in a row -/

section Rows

variable {ts us sep : List Token} {t : Token}

theorem recognized_nil : Recognized [] := fun _ h => absurd h List.not_mem_nil

theorem Recognized.cons (ht : t.IsRecognized) (h : Recognized ts) : Recognized (t :: ts) :=
  List.forall_mem_cons.mpr ⟨ht, h⟩

theorem recognized_singleton (ht : t.IsRecognized) : Recognized [t] := recognized_nil.cons ht

theorem Recognized.append (h : Recognized ts) (h' : Recognized us) : Recognized (ts ++ us) :=
  List.forall_mem_append.mpr ⟨h, h'⟩

theorem Recognized.inParens (h : Recognized ts) : Recognized (Expr.inParens ts) :=
  (h.append (recognized_singleton (t := .mark .closeParen) trivial)).cons trivial

theorem recognized_spaced (ht : t.IsRecognized) : Recognized (Expr.spaced t) :=
  ((recognized_singleton (t := .space) trivial).cons ht).cons trivial

theorem recognized_joinWith (hsep : Recognized sep) {tss : List (List Token)}
    (h : ∀ ts ∈ tss, Recognized ts) : Recognized (joinWith sep tss) := by
  induction tss with
  | nil => exact recognized_nil
  | cons ts tss ih =>
    have hhead := h ts List.mem_cons_self
    by_cases hne : tss = []
    · subst hne
      exact hhead
    · rw [joinWith_cons _ _ hne]
      exact (hhead.append hsep).append (ih fun us hus => h us (List.mem_cons_of_mem _ hus))

theorem recognized_separator : Recognized Expr.separator :=
  (recognized_singleton (t := .space) trivial).cons trivial

theorem recognized_row (hsep : Recognized sep) {es : List Expr}
    (h : ∀ e ∈ es, Recognized e.tokens) : Recognized (joinWith sep (es.map Expr.tokens)) := by
  refine recognized_joinWith hsep fun ts hts => ?_
  obtain ⟨e, he, rfl⟩ := List.mem_map.mp hts
  exact h e he

theorem recognized_call {name : String} {es : List Expr} (h : ∀ e ∈ es, Recognized e.tokens) :
    Recognized (Expr.call name es).tokens := by
  rw [Expr.tokens_call]
  exact (recognized_row recognized_separator h).inParens.cons trivial

theorem recognized_combined (c : Connective) {es : List Expr}
    (h : ∀ e ∈ es, Recognized e.tokens) : Recognized (Expr.combined c es).tokens := by
  rw [Reader.tokens_combined]
  exact recognized_row (recognized_spaced (t := .keyword (.connective c)) trivial) h

theorem recognized_listTokens {es : List Expr} (h : ∀ e ∈ es, Recognized e.tokens) :
    Recognized (Stage.listTokens es) := by
  refine recognized_joinWith (recognized_singleton (t := .mark .comma) trivial) fun ts hts => ?_
  obtain ⟨e, he, rfl⟩ := List.mem_map.mp hts
  exact (h e he).cons trivial

end Rows

end Kusto.Kql

namespace Kusto.Compile

open Draft (Scalar Condition Aggregation Grouping Clause)
open Kql

/-! ## The parts of a draft -/

section Parts

variable {ctx : Context} {e : Expr} {q : Piece}

/-- A text is recognized with blanks around it, and written without them. -/
theorem isRecognized_timeSpan {s : String} (h : isTimespanLiteral (trim s)) :
    (Token.timeSpan (trim s)).IsRecognized :=
  ⟨h, by rw [toList_trim, trimmed_trimmed]⟩

theorem isRecognized_verbatim {s : String} (h : isRelativeTime (trim s)) :
    (Token.verbatim (trim s)).IsRecognized :=
  ⟨h, by rw [toList_trim, trimmed_trimmed]⟩

theorem recognized_constant {type : ValueType} {v : Scalar} (h : constant? type v = some e) :
    Recognized e.tokens := by
  cases isConstant_of_constant h with
  | text | template | dateTime => exact recognized_singleton trivial
  | number _ hl =>
    rcases number_cases hl with ⟨n, rfl⟩ | ⟨x, rfl⟩
    · exact recognized_singleton trivial
    · exact recognized_singleton trivial
  | boolean _ hl =>
    obtain ⟨b, rfl, -⟩ := truth_cases hl
    exact recognized_singleton trivial
  | relative _ hrelative => exact recognized_singleton (isRecognized_verbatim hrelative)
  | timeSpan _ hspan => exact recognized_singleton (isRecognized_timeSpan hspan)

theorem recognized_reference (p : Property) : Recognized (reference ctx p).tokens := by
  rcases reference_cases ctx p with h | ⟨root, keys, h⟩
  · rw [h]
    exact recognized_singleton trivial
  · rw [h]
    refine recognized_call fun e he => ?_
    rw [List.mem_singleton.mp he, Expr.tokens_path]
    have hkey : ∀ key : String, Recognized (Expr.keyTokens key) := fun key =>
      ((recognized_singleton (t := .mark .closeBracket) trivial).cons (t := .text key) trivial).cons
        trivial
    refine Recognized.cons (t := .identifier root) trivial fun t ht => ?_
    obtain ⟨key, -, ht⟩ := List.mem_flatMap.mp ht
    exact hkey key t ht

theorem recognized_comparing {column : Expr} {op : String} {P : Expr → Prop}
    (hcolumn : Recognized column.tokens) (hP : ∀ v, P v → Recognized v.tokens)
    (h : Comparing column op P e) : Recognized e.tokens := by
  have hop : Recognized (Expr.spaced (.operator op)) := recognized_spaced trivial
  cases h with
  | call => exact recognized_call fun e he => by rwa [List.mem_singleton.mp he]
  | binary hv => exact (hcolumn.append hop).append (hP _ hv)
  | membership hvs =>
    rw [Expr.tokens_membership]
    have hrow := recognized_row recognized_separator fun v hv => hP v (hvs v hv)
    exact (hcolumn.append hop).append hrow.inParens
  | range hl hh =>
    rw [Expr.tokens_range]
    have hdots : Recognized (Expr.spaced (.mark .range)) := recognized_spaced trivial
    exact (hcolumn.append hop).append (((hP _ hl).append hdots).append (hP _ hh)).inParens

theorem recognized_condition {c : Condition} (h : condition ctx c = .ok e) :
    Recognized e.tokens := by
  obtain ⟨o, -, hform⟩ := comparing_of_condition h
  refine recognized_comparing (recognized_reference c.property) (fun v hv => ?_) hform
  obtain ⟨x, hx⟩ := hv
  exact recognized_constant hx

/-- A marker is a comment. -/
theorem recognized_ofResult {r : Except Warning Expr} (h : ∀ e, r = .ok e → Recognized e.tokens) :
    Recognized (Piece.ofResult r).expr.tokens := by
  cases r with
  | ok e => exact h e rfl
  | error w => exact recognized_singleton trivial

theorem recognized_conditionPiece {c : Condition} (h : conditionPiece? ctx c = some q) :
    Recognized q.expr.tokens := by
  unfold conditionPiece? at h
  split at h
  · obtain rfl := Option.some.inj h
    exact recognized_ofResult fun e he => recognized_condition he
  · exact absurd h (by simp)

theorem recognized_pieces {α : Type} {f : α → Option Piece} (xs : List α)
    (h : ∀ x q, f x = some q → Recognized q.expr.tokens) :
    ∀ e ∈ (xs.filterMap f).map Piece.expr, Recognized e.tokens := by
  intro e he
  obtain ⟨q, hq, rfl⟩ := List.mem_map.mp he
  obtain ⟨x, -, hx⟩ := List.mem_filterMap.mp hq
  exact h x q hx

theorem recognized_alternatives {g : Clause Condition} (h : alternativesPiece? ctx g = some q) :
    Recognized q.expr.tokens := by
  unfold alternativesPiece? at h
  dsimp only at h
  split at h
  · exact absurd h (by simp)
  · obtain rfl := Option.some.inj h
    have hpieces := recognized_pieces (f := conditionPiece? ctx) g.items
      fun c q => recognized_conditionPiece
    exact (recognized_combined .any hpieces).inParens

theorem recognized_aggregation {a : Aggregation} (h : aggregationPiece? ctx a = some q) :
    Recognized q.expr.tokens := by
  rcases aggregation_cases h with ⟨-, rfl⟩ | ⟨f, -, ⟨-, rfl⟩ | ⟨-, rfl⟩⟩
  · exact recognized_singleton trivial
  · exact recognized_call fun e he => absurd he List.not_mem_nil
  · refine recognized_call fun e he => ?_
    rcases List.mem_cons.mp he with rfl | he
    · exact recognized_reference a.property
    · obtain ⟨y, hy, rfl⟩ := List.mem_map.mp he
      rcases argument_cases hy with ⟨r, -, rfl⟩ | ⟨missing, rfl⟩
      · exact recognized_ofResult fun e he => recognized_constant (constant_of_operand he)
      · exact recognized_singleton trivial

theorem recognized_width {s : String} (h : width? s = some e) : Recognized e.tokens := by
  unfold width? at h
  split at h
  · obtain rfl := Option.some.inj h
    exact recognized_singleton trivial
  · split at h
    · rename_i hspan
      obtain rfl := Option.some.inj h
      refine recognized_singleton (isRecognized_timeSpan ?_)
      rwa [isTimespanLiteral_trim]
    · exact absurd h (by simp)

theorem recognized_grouping {g : Grouping} (h : groupingPiece? ctx g = some q) :
    Recognized q.expr.tokens := by
  have hcolumn : Recognized (reference ctx g.property).tokens := recognized_reference g.property
  rcases grouping_cases h with rfl | ⟨w, hw, rfl⟩ | rfl
  · exact hcolumn
  · refine recognized_call fun e he => ?_
    rcases List.mem_cons.mp he with rfl | he
    · exact hcolumn
    · rw [List.mem_singleton.mp he]
      exact recognized_width hw
  · exact recognized_singleton trivial

end Parts

/-! ## Queries and settings -/

section Whole

variable (ctx : Context) (d : Draft)

theorem recognized_timeFilter {e : Expr} (h : timeFilter? ctx = some e) :
    Recognized e.tokens := by
  unfold timeFilter? at h
  split at h
  · obtain ⟨c, -, rfl⟩ := Option.map_eq_some_iff.mp h
    exact recognized_call fun e he => by
      rw [List.mem_singleton.mp he]
      exact recognized_singleton trivial
  · exact absurd h (by simp)

theorem recognized_filter {e : Expr} (h : filter? ctx d = some e) : Recognized e.tokens := by
  unfold filter? at h
  dsimp only at h
  split at h
  · exact absurd h (by simp)
  · obtain rfl := Option.some.inj h
    exact recognized_combined .all (recognized_pieces _ fun g q => recognized_alternatives)

theorem recognized_summary {st : Stage} (h : st ∈ summaryStages ctx d) :
    Recognized st.tokens := by
  have haggregates := recognized_listTokens (recognized_pieces (f := aggregationPiece? ctx)
    d.aggregations.items fun a q => recognized_aggregation)
  have hkeys := recognized_listTokens (recognized_pieces (f := groupingPiece? ctx)
    d.groupings.items fun g q => recognized_grouping)
  unfold summaryStages at h
  dsimp only at h
  split at h
  · exact absurd h List.not_mem_nil
  · obtain rfl := List.mem_singleton.mp h
    refine Recognized.cons (t := .keyword .summarize) trivial (haggregates.append ?_)
    split
    · exact recognized_nil
    · exact (hkeys.cons (t := .keyword .groupBy) trivial).cons trivial

/-- **What is written as a timespan has been recognized as one**, and so have the relative times. -/
theorem recognized_stage : ∀ st ∈ (compile ctx d).pipeline.stages, Recognized st.tokens := by
  intro st hst
  change st ∈ (pipeline ctx d).stages at hst
  rw [stages_pipeline] at hst
  have hfilter : ∀ {e : Expr}, Recognized e.tokens → Recognized (Stage.filter e).tokens :=
    fun h => (h.cons (t := .space) trivial).cons trivial
  simp only [List.mem_append, List.mem_map, Option.mem_toList] at hst
  rcases hst with ((⟨e, he, rfl⟩ | ⟨e, he, rfl⟩) | hsummary) | ⟨n, -, rfl⟩
  · exact hfilter (recognized_timeFilter ctx he)
  · exact hfilter (recognized_filter ctx d he)
  · exact recognized_summary ctx d hsummary
  · have hrows := recognized_singleton (t := .int (min n Stage.rowLimit : Nat)) trivial
    exact (hrows.cons (t := .space) trivial).cons trivial

/-- A bin width of the settings is a timespan or a template variable. -/
theorem accepted_of_parse {text s : String} {st : Settings} (h : Settings.parse text = .ok st)
    (hs : st.options.defaultInterval = some s) : isTimespanLiteral s ∨ isTemplateVariable s := by
  unfold Settings.parse at h
  split at h
  · obtain ⟨rfl, hwidths, -⟩ := Settings.validate_eq_ok_iff.mp h
    exact (Bool.or_eq_true _ _).mp (hwidths s hs)
  · exact absurd h (by simp)

end Whole

/-! ## The grammar of the query language -/

section Grammar

/-- The text is recognized by the grammar of the query language, whose digits are those of ASCII,
and gets into a query or the settings only if it is in the grammar. -/
structure RecognizedExactly (s : String) : Prop where
  span : isTimespanLiteral s ↔ IsSpan Char.isDigit (trimmed s.toList)
  relative : isRelativeTime s ↔ IsRelativeCall Char.isDigit (trimmed s.toList)
  /-- The operands of the type and the widths of bins. -/
  spans : ∀ ctx d, ∀ st ∈ (compile ctx d).pipeline.stages, .timeSpan s ∈ st.tokens →
    IsSpan Char.isDigit s.toList
  /-- The calls that are written for points of time. -/
  calls : ∀ ctx d, ∀ st ∈ (compile ctx d).pipeline.stages, .verbatim s ∈ st.tokens →
    IsRelativeCall Char.isDigit s.toList
  /-- The default width, unless it is a template variable. -/
  accepted : ∀ text st, Settings.parse text = .ok st → st.options.defaultInterval = some s →
    ¬ isTemplateVariable s → IsSpan Char.isDigit (trimmed s.toList)

variable {s : String}

theorem span_iff : IsSpan Char.isDigit (trimmed s.toList) ↔
    isTimespanLiteral s ∧ ¬ HasForeignDigit s.toList := by
  rw [isSpan_ascii_iff, hasForeignDigit_trimmed_iff, ← isTimespan_iff, isTimespanLiteral]

theorem relative_iff : IsRelativeCall Char.isDigit (trimmed s.toList) ↔
    isRelativeTime s ∧ ¬ HasForeignDigit s.toList := by
  rw [isRelativeCall_ascii_iff, hasForeignDigit_trimmed_iff, ← isRelative_iff, isRelativeTime]

variable (s)

/-- **Where texts are recognized exactly**: wherever what is recognized has no digit of another
script than ASCII. -/
theorem recognizedExactly_iff : RecognizedExactly s ↔
    ¬ ((isTimespanLiteral s ∨ isRelativeTime s) ∧ HasForeignDigit s.toList) := by
  constructor
  · rintro hexact ⟨hspan | hrelative, hforeign⟩
    · exact (span_iff.mp (hexact.span.mp hspan)).2 hforeign
    · exact (relative_iff.mp (hexact.relative.mp hrelative)).2 hforeign
  · intro hnot
    -- without foreign digits the two grammars agree on all that has been recognized
    have hspan : isTimespanLiteral s → IsSpan Char.isDigit (trimmed s.toList) := fun h =>
      span_iff.mpr ⟨h, fun hforeign => hnot ⟨.inl h, hforeign⟩⟩
    have hrelative : isRelativeTime s → IsRelativeCall Char.isDigit (trimmed s.toList) := fun h =>
      relative_iff.mpr ⟨h, fun hforeign => hnot ⟨.inr h, hforeign⟩⟩
    refine ⟨⟨hspan, fun h => (span_iff.mp h).1⟩, ⟨hrelative, fun h => (relative_iff.mp h).1⟩,
      fun ctx d st hst hs => ?_, fun ctx d st hst hs => ?_, fun text st hst hs hvariable => ?_⟩
    · obtain ⟨h, htrimmed⟩ := recognized_stage ctx d st hst _ hs
      exact htrimmed ▸ hspan h
    · obtain ⟨h, htrimmed⟩ := recognized_stage ctx d st hst _ hs
      exact htrimmed ▸ hrelative h
    · exact hspan ((accepted_of_parse hst hs).resolve_right hvariable)

/-- Durations of more than five minutes, with the digit of another script. -/
def longEvents : Draft where
  source := some ⟨"Events", .string⟩
  filter := .all [.any [⟨⟨"Duration", .timeSpan⟩,
    { name := ">", value := some (.one (.text "\u0665m")) }⟩]]

/-- The digit gets into the query, and no warning tells of it. -/
theorem not_recognizedExactly_minutes :
    isTimespanLiteral "\u0665m" ∧ ¬ IsSpan Char.isDigit (trimmed "\u0665m".toList) ∧
      (compile {} longEvents).query = "Events | where (Duration > \u0665m)" ∧
      (compile {} longEvents).warnings = [] ∧ ¬ RecognizedExactly "\u0665m" := by
  have hspan : isTimespanLiteral "\u0665m" := by decide
  have hforeign : HasForeignDigit "\u0665m".toList :=
    ⟨'\u0665', by decide, by decide, by decide⟩
  have hnot : ¬ IsSpan Char.isDigit (trimmed "\u0665m".toList) := fun h =>
    (span_iff.mp h).2 hforeign
  exact ⟨hspan, hnot, by decide, by decide, fun h => hnot (h.span.mp hspan)⟩

end Grammar

end Kusto.Compile
