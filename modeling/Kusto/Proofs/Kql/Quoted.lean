import Kusto.Kql.Quoted
import Mathlib.Data.List.Basic

/-!
# Quoted texts — what a reader takes out of its quotes

A reader of literals stops at the first quote that is not behind a backslash and undoes the escapes
on its way.  Out of a quoted text it takes the text itself, and it leaves what stands behind the
quotes (`readText_quoted`).
-/

namespace Kusto.Kql

/-- The text up to the quote `q` that ends it, and what follows the quote.  A backslash with the
character behind it stands for what `undo` makes of that character. -/
def literalBody? (q : Char) (undo : Char → Char) : List Char → Option (List Char × List Char)
  | [] => none
  | c :: cs =>
    if c = q then some ([], cs)
    else if c = '\\' then
      match cs with
      | [] => none
      | d :: rest => (literalBody? q undo rest).map fun (s, more) => (undo d :: s, more)
    else (literalBody? q undo cs).map fun (s, more) => (c :: s, more)

/-- What a character behind a backslash stands for between double quotes. -/
def undoDouble (c : Char) : Char :=
  if c = 'n' then '\n' else if c = 'r' then '\r' else if c = 't' then '\t' else c

/-- The text in double quotes at the front, and what follows it. -/
def readText? : List Char → Option (List Char × List Char)
  | '"' :: cs => literalBody? '"' undoDouble cs
  | _ => none

section Reading

variable {q : Char} {undo : Char → Char} {escape : Char → List Char}

theorem literalBody_quote (cs : List Char) : literalBody? q undo (q :: cs) = some ([], cs) := by
  unfold literalBody?
  exact if_pos rfl

theorem literalBody_escape (hq : q ≠ '\\') (d : Char) (cs : List Char) :
    literalBody? q undo ('\\' :: d :: cs) =
      (literalBody? q undo cs).map fun (s, more) => (undo d :: s, more) := by
  conv_lhs => unfold literalBody?
  rw [if_neg (Ne.symm hq), if_pos rfl]

theorem literalBody_plain {c : Char} (hquote : c ≠ q) (hslash : c ≠ '\\') (cs : List Char) :
    literalBody? q undo (c :: cs) =
      (literalBody? q undo cs).map fun (s, more) => (c :: s, more) := by
  conv_lhs => unfold literalBody?
  rw [if_neg hquote, if_neg hslash]

/-- `undo` takes back what `escape` does, and no escaped character ends a literal of `q`. -/
def Undoes (q : Char) (undo : Char → Char) (escape : Char → List Char) : Prop :=
  ∀ c, (escape c = [c] ∧ c ≠ '\\' ∧ c ≠ q) ∨ ∃ d, escape c = ['\\', d] ∧ undo d = c

theorem literalBody_escaped (hq : q ≠ '\\') (h : Undoes q undo escape) (s rest : List Char) :
    literalBody? q undo (s.flatMap escape ++ q :: rest) = some (s, rest) := by
  induction s with
  | nil => exact literalBody_quote rest
  | cons c s ih =>
    rw [List.flatMap_cons, List.append_assoc]
    rcases h c with ⟨hc, hslash, hquote⟩ | ⟨d, hc, rfl⟩
    · rw [hc, List.singleton_append, literalBody_plain hquote hslash, ih]
      rfl
    · rw [hc, List.cons_append, List.singleton_append, literalBody_escape hq, ih]
      rfl

theorem undoes_escapeDouble : Undoes '"' undoDouble escapeDouble := by
  intro c
  unfold escapeDouble
  split_ifs with hmark hnewline hreturn htab
  · refine .inr ⟨c, rfl, ?_⟩
    rcases hmark with rfl | rfl <;> rfl
  · exact .inr ⟨'n', rfl, hnewline.symm⟩
  · exact .inr ⟨'r', rfl, hreturn.symm⟩
  · exact .inr ⟨'t', rfl, htab.symm⟩
  · exact .inl ⟨rfl, not_or.mp hmark⟩

/-- Out of a quoted text comes the text, and what follows is left. -/
theorem readText_quoted (s : String) (rest : List Char) :
    readText? (quoted s ++ rest) = some (s.toList, rest) := by
  unfold quoted
  rw [List.cons_append, List.append_assoc]
  exact literalBody_escaped (by decide) undoes_escapeDouble s.toList rest

end Reading

end Kusto.Kql
