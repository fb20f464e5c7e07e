import Kusto.Kql.Token
import Kusto.Text.Pieces

/-!
# Scalar expressions

The expressions that a query is made of, and their tokens.
-/

open Kusto.Number (Binary64)
open Kusto.Text (joinWith)

namespace Kusto.Kql

/-- A constant. -/
inductive Literal where
  | int (value : Int)
  | real (value : Binary64)
  | text (value : String)
  | bool (value : Bool)
  | dateTime (value : String)
  | timeSpan (value : String)
  deriving DecidableEq

def Literal.token : Literal → Token
  | int n => .int n
  | real x => .real x
  | text s => .text s
  | bool b => .bool b
  | dateTime s => .dateTime s
  | timeSpan s => .timeSpan s

/-- A scalar expression. -/
inductive Expr where
  | column (name : String)
  /-- A path of keys into a dynamic column. -/
  | path (column : String) (keys : List String)
  | literal (value : Literal)
  | binary (left : Expr) (op : String) (right : Expr)
  | call (name : String) (args : List Expr)
  /-- `subject op (v1, v2, ...)` -/
  | membership (subject : Expr) (op : String) (values : List Expr)
  /-- `subject op (low .. high)` -/
  | range (subject : Expr) (op : String) (low high : Expr)
  | logical (connective : Connective) (operands : List Expr)
  | paren (inner : Expr)
  /-- A template variable. -/
  | template (name : String)
  /-- A comment in the place of an expression that cannot be written. -/
  | marker (message : String)
  /-- A text as it stands. -/
  | verbatim (text : String)

namespace Expr

instance : Inhabited Expr := ⟨verbatim ""⟩

/-- Tokens in parentheses. -/
def inParens (ts : List Token) : List Token :=
  .mark .openParen :: (ts ++ [.mark .closeParen])

/-- An operator with a space on both sides. -/
def spaced (op : Token) : List Token := [.space, op, .space]

/-- A comma and a space. -/
def separator : List Token := [.mark .comma, .space]

/-- A key in brackets. -/
def keyTokens (key : String) : List Token := [.mark .openBracket, .text key, .mark .closeBracket]

mutual

/-- The tokens of an expression. -/
def tokens : Expr → List Token
  | column name => [.identifier name]
  | path root keys => .identifier root :: keys.flatMap keyTokens
  | literal v => [v.token]
  | binary left op right => left.tokens ++ spaced (.operator op) ++ right.tokens
  | call name args => .function name :: inParens (joinWith separator (tokenLists args))
  | membership subject op values =>
    subject.tokens ++ spaced (.operator op) ++ inParens (joinWith separator (tokenLists values))
  | range subject op low high =>
    subject.tokens ++ spaced (.operator op) ++
      inParens (low.tokens ++ spaced (.mark .range) ++ high.tokens)
  | logical c operands => joinWith (spaced (.keyword (.connective c))) (tokenLists operands)
  | paren inner => inParens inner.tokens
  | template name => [.template name]
  | marker message => [.comment message]
  | verbatim text => [.verbatim text]
termination_by structural e => e

/-- The tokens of each expression. -/
def tokenLists : List Expr → List (List Token)
  | [] => []
  | e :: es => e.tokens :: tokenLists es
termination_by structural es => es

end

@[simp] theorem tokenLists_eq_map (es : List Expr) : tokenLists es = es.map tokens := by
  induction es with
  | nil => rfl
  | cons e es ih => simp [tokenLists, ih]

@[simp] theorem tokens_column (name : String) : (column name).tokens = [.identifier name] := rfl

@[simp] theorem tokens_path (root : String) (keys : List String) :
    (path root keys).tokens = .identifier root :: keys.flatMap keyTokens := rfl

@[simp] theorem tokens_literal (v : Literal) : (literal v).tokens = [v.token] := rfl

@[simp] theorem tokens_binary (left : Expr) (op : String) (right : Expr) :
    (binary left op right).tokens = left.tokens ++ spaced (.operator op) ++ right.tokens := rfl

@[simp] theorem tokens_call (name : String) (args : List Expr) :
    (call name args).tokens =
      .function name :: inParens (joinWith separator (args.map tokens)) := by
  rw [← tokenLists_eq_map]
  rfl

@[simp] theorem tokens_membership (subject : Expr) (op : String) (values : List Expr) :
    (membership subject op values).tokens = subject.tokens ++ spaced (.operator op) ++
      inParens (joinWith separator (values.map tokens)) := by
  rw [← tokenLists_eq_map]
  rfl

@[simp] theorem tokens_range (subject : Expr) (op : String) (low high : Expr) :
    (range subject op low high).tokens = subject.tokens ++ spaced (.operator op) ++
      inParens (low.tokens ++ spaced (.mark .range) ++ high.tokens) := rfl

@[simp] theorem tokens_logical (c : Connective) (operands : List Expr) :
    (logical c operands).tokens =
      joinWith (spaced (.keyword (.connective c))) (operands.map tokens) := by
  rw [← tokenLists_eq_map]
  rfl

@[simp] theorem tokens_paren (inner : Expr) : (paren inner).tokens = inParens inner.tokens := rfl

@[simp] theorem tokens_template (name : String) : (template name).tokens = [.template name] := rfl

@[simp] theorem tokens_marker (message : String) : (marker message).tokens = [.comment message] :=
  rfl

@[simp] theorem tokens_verbatim (text : String) : (verbatim text).tokens = [.verbatim text] := rfl

/-- The operands combined; one operand stands alone. -/
def combined (c : Connective) : List Expr → Expr
  | [e] => e
  | es => logical c es

/-- The text of an expression. -/
def text (e : Expr) : String := renderText e.tokens

end Expr

end Kusto.Kql
