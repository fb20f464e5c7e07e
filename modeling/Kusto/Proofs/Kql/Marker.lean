import Kusto.Kql.Pipeline
import Mathlib.Data.List.Basic

/-!
# Markers — the comments of a query and where they come from

A marker is an expression that is written as a comment.  The comments of a written pipeline are the
messages of the markers in its expressions, from left to right (`Pipeline.comments_tokens`).
-/

open Kusto.Text (joinWith joinWith_cons)

namespace Kusto.Kql

/-- The message of a comment. -/
def Token.comment? : Token → Option String
  | .comment message => some message
  | _ => none

/-- The messages of the comments among tokens. -/
def comments (ts : List Token) : List String := ts.filterMap Token.comment?

@[simp] theorem comments_append (ts us : List Token) :
    comments (ts ++ us) = comments ts ++ comments us :=
  List.filterMap_append

/-- Tokens between separators without comments have the comments that they had. -/
theorem comments_joinWith {sep : List Token} (hsep : comments sep = [])
    (tss : List (List Token)) : comments (joinWith sep tss) = tss.flatMap comments := by
  induction tss with
  | nil => rfl
  | cons ts tss ih =>
    by_cases h : tss = []
    · subst h
      simp
    · rw [joinWith_cons _ _ h, comments_append, comments_append, hsep, ih, List.append_nil,
        List.flatMap_cons]

namespace Expr

mutual

/-- The messages of the markers in an expression, from left to right. -/
def markers : Expr → List String
  | column _ | path _ _ | literal _ | template _ | verbatim _ => []
  | binary left _ right => left.markers ++ right.markers
  | call _ args => markersIn args
  | membership subject _ values => subject.markers ++ markersIn values
  | range subject _ low high => subject.markers ++ low.markers ++ high.markers
  | logical _ operands => markersIn operands
  | paren inner => inner.markers
  | marker message => [message]
termination_by structural e => e

/-- The messages of the markers in each expression. -/
def markersIn : List Expr → List String
  | [] => []
  | e :: es => e.markers ++ markersIn es
termination_by structural es => es

end

theorem comments_inParens (ts : List Token) : comments (inParens ts) = comments ts := by
  show comments ([.mark .openParen] ++ (ts ++ [.mark .closeParen])) = _
  rw [comments_append, comments_append]
  exact List.append_nil _

theorem comments_spaced {t : Token} (h : t.comment? = none) : comments (spaced t) = [] := by
  have hspace : Token.comment? .space = none := rfl
  simp [comments, spaced, h, hspace]

mutual

/-- The comments of a written expression are its markers. -/
theorem comments_tokens : ∀ e : Expr, comments e.tokens = e.markers
  | column _ => rfl
  | path _ keys => by
    have hkey : ∀ key, comments (keyTokens key) = [] := fun _ => rfl
    have hkeys : comments (keys.flatMap keyTokens) = [] := by
      induction keys with
      | nil => rfl
      | cons key keys ih => rw [List.flatMap_cons, comments_append, hkey, ih, List.append_nil]
    exact hkeys
  | literal v => by cases v <;> rfl
  | binary left op right => by
    rw [tokens_binary, comments_append, comments_append, comments_spaced rfl, List.append_nil,
      comments_tokens left, comments_tokens right]
    rfl
  | call name args => by
    show comments (inParens (joinWith separator (tokenLists args))) = markersIn args
    rw [comments_inParens]
    exact comments_tokenLists rfl args
  | membership subject op values => by
    show comments (subject.tokens ++ spaced (.operator op) ++
      inParens (joinWith separator (tokenLists values))) = subject.markers ++ markersIn values
    rw [comments_append, comments_append, comments_spaced rfl, List.append_nil,
      comments_inParens, comments_tokens subject, comments_tokenLists rfl values]
  | range subject op low high => by
    rw [tokens_range, comments_append, comments_append, comments_spaced rfl, List.append_nil,
      comments_inParens, comments_append, comments_append, comments_spaced rfl, List.append_nil,
      comments_tokens subject, comments_tokens low, comments_tokens high, ← List.append_assoc]
    rfl
  | logical c operands => comments_tokenLists rfl operands
  | paren inner => (comments_inParens _).trans (comments_tokens inner)
  | template _ => rfl
  | marker _ => rfl
  | verbatim _ => rfl

theorem comments_tokenLists {sep : List Token} (hsep : comments sep = []) :
    ∀ es : List Expr, comments (joinWith sep (tokenLists es)) = markersIn es
  | [] => rfl
  | e :: es => by
    have hes := comments_tokenLists hsep es
    rw [comments_joinWith hsep] at hes ⊢
    show comments e.tokens ++ (tokenLists es).flatMap comments = e.markers ++ markersIn es
    rw [comments_tokens e, hes]

end

end Expr

/-! ## Sources, stages and pipelines -/

theorem Source.comments_tokens (s : Source) : comments s.tokens = [] := by
  have hdatabase : ∀ db, comments (databaseTokens db) = [] := fun db => by cases db <;> rfl
  cases s with
  | table db name =>
    rw [tokens, comments_append, hdatabase]
    rfl
  | function db name =>
    rw [tokens, comments_append, hdatabase]
    rfl
  | verbatim text => rfl
  | missing => rfl

/-- The messages of the markers in a stage; aggregates stand before keys. -/
def Stage.markers : Stage → List String
  | filter predicate => predicate.markers
  | summarize aggregates keys =>
    aggregates.flatMap Expr.markers ++ keys.flatMap Expr.markers
  | take _ => []

theorem Stage.comments_listTokens (es : List Expr) :
    comments (listTokens es) = es.flatMap Expr.markers := by
  rw [listTokens, comments_joinWith rfl, List.flatMap_map]
  exact List.flatMap_congr fun e _ => e.comments_tokens

theorem Stage.comments_tokens (s : Stage) : comments s.tokens = s.markers := by
  cases s with
  | filter predicate => exact predicate.comments_tokens
  | summarize aggregates keys =>
    show comments (listTokens aggregates ++ _) = _
    rw [comments_append, comments_listTokens]
    cases keys with
    | nil => rfl
    | cons key keys => exact congrArg _ (comments_listTokens (key :: keys))
  | take rows => rfl

/-- The messages of the markers in a pipeline, stage by stage; a source has none. -/
def Pipeline.markers (p : Pipeline) : List String := p.stages.flatMap Stage.markers

/-- The comments of a written pipeline are its markers. -/
theorem Pipeline.comments_tokens (p : Pipeline) : comments p.tokens = p.markers := by
  have hstage : ∀ s : Stage, comments (bar ++ s.tokens) = s.markers := fun s => by
    rw [comments_append, s.comments_tokens]
    rfl
  rw [tokens, comments_append, Source.comments_tokens, List.nil_append, comments,
    List.filterMap_flatMap]
  exact List.flatMap_congr fun s _ => hstage s

end Kusto.Kql
