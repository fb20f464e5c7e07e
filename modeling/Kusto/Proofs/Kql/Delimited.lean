import Kusto.Proofs.Kql.Closed

/-!
# Delimited texts — where what is quoted ends, and what it stands for

A scan of a quoted text stops at the quote that ends it, whatever follows, and the escapes on its
way undone give the text back.  So it is with the quotes of an identifier in brackets; an identifier
without is a word that is not reserved.  No two texts have the same written form (`quoting_exact`).
-/

namespace Kusto.Kql

/-! ## Scanning and undoing -/

/-- What stands before the quote `q` that ends it, and what follows the quote.  A backslash takes
the character behind it along. -/
def bodyBefore? (q : Char) : List Char → Option (List Char × List Char)
  | [] => none
  | c :: cs =>
    if c = q then some ([], cs)
    else if c = '\\' then
      match cs with
      | [] => none
      | d :: rest => (bodyBefore? q rest).map fun (body, more) => (c :: d :: body, more)
    else (bodyBefore? q cs).map fun (body, more) => (c :: body, more)

/-- What stands between two quotes `q` in front, as it is written, and what follows them. -/
def between? (q : Char) : List Char → Option (List Char × List Char)
  | [] => none
  | c :: cs => if c = q then bodyBefore? q cs else none

/-- The text with its escapes undone.  A backslash must stand before one of the characters that
`escapes` lists with what they stand for. -/
def unescaped? (escapes : List (Char × Char)) : List Char → Option (List Char)
  | [] => some []
  | c :: cs =>
    if c = '\\' then
      match cs with
      | [] => none
      | d :: rest => (escapes.lookup d).bind fun e => (unescaped? escapes rest).map (e :: ·)
    else (unescaped? escapes cs).map (c :: ·)

/-- The escapes between double quotes. -/
def doubleEscapes : List (Char × Char) :=
  [('\\', '\\'), ('"', '"'), ('n', '\n'), ('r', '\r'), ('t', '\t')]

/-- The escapes between single quotes. -/
def singleEscapes : List (Char × Char) := [('\\', '\\'), ('\'', '\'')]

/-- `literal` is `s` between two quotes `q`: whatever follows it, a scan finds its end, and what
stands before the end is `s` once the escapes are undone. -/
def Delimits (q : Char) (escapes : List (Char × Char)) (literal s : List Char) : Prop :=
  ∃ body, literal = q :: (body ++ [q]) ∧ unescaped? escapes body = some s ∧
    ∀ rest, between? q (literal ++ rest) = some (body, rest)

/-- Between its quotes a text has one meaning only. -/
theorem Delimits.unique {q : Char} {escapes : List (Char × Char)} {literal s s' : List Char}
    (h : Delimits q escapes literal s) (h' : Delimits q escapes literal s') : s = s' := by
  obtain ⟨body, hbody, hs, -⟩ := h
  obtain ⟨body', hbody', hs', -⟩ := h'
  have heq : body = body' := by
    rw [hbody] at hbody'
    exact List.append_cancel_right (List.cons.inj hbody').2
  rw [heq] at hs
  exact Option.some.inj (hs.symm.trans hs')

section Reading

variable {q : Char} {escapes : List (Char × Char)} {escape : Char → List Char}

theorem bodyBefore_quote (rest : List Char) : bodyBefore? q (q :: rest) = some ([], rest) := by
  unfold bodyBefore?
  exact if_pos rfl

theorem bodyBefore_plain {c : Char} (hslash : c ≠ '\\') (hquote : c ≠ q) (cs : List Char) :
    bodyBefore? q (c :: cs) =
      (bodyBefore? q cs).map fun (body, more) => (c :: body, more) := by
  conv_lhs => unfold bodyBefore?
  rw [if_neg hquote, if_neg hslash]

theorem bodyBefore_escape (hq : q ≠ '\\') (d : Char) (cs : List Char) :
    bodyBefore? q ('\\' :: d :: cs) =
      (bodyBefore? q cs).map fun (body, more) => ('\\' :: d :: body, more) := by
  conv_lhs => unfold bodyBefore?
  rw [if_neg (Ne.symm hq), if_pos rfl]

theorem unescaped_plain {c : Char} (hslash : c ≠ '\\') (cs : List Char) :
    unescaped? escapes (c :: cs) = (unescaped? escapes cs).map (c :: ·) := by
  conv_lhs => unfold unescaped?
  rw [if_neg hslash]

theorem unescaped_escape (d : Char) (cs : List Char) :
    unescaped? escapes ('\\' :: d :: cs) =
      (escapes.lookup d).bind fun e => (unescaped? escapes cs).map (e :: ·) := by
  conv_lhs => unfold unescaped?
  rw [if_pos rfl]

/-- The scan goes through an escaped text to the quote behind it. -/
theorem bodyBefore_escaped (hq : q ≠ '\\') (h : ∀ c, IsEscaped q (escape c)) (s rest : List Char) :
    bodyBefore? q (s.flatMap escape ++ q :: rest) = some (s.flatMap escape, rest) := by
  induction s with
  | nil => exact bodyBefore_quote rest
  | cons c s ih =>
    rw [List.flatMap_cons, List.append_assoc]
    rcases h c with ⟨d, hd, hslash, hquote⟩ | ⟨d, hd⟩
    · rw [hd, List.singleton_append, bodyBefore_plain hslash hquote, ih]
      rfl
    · rw [hd, List.cons_append, List.singleton_append, bodyBefore_escape hq, ih]
      rfl

/-- Each character stands for itself, or is escaped by one that stands for it. -/
def Encodes (escapes : List (Char × Char)) (escape : Char → List Char) : Prop :=
  ∀ c, (escape c = [c] ∧ c ≠ '\\') ∨ ∃ d, escape c = ['\\', d] ∧ escapes.lookup d = some c

theorem unescaped_escaped (h : Encodes escapes escape) (s : List Char) :
    unescaped? escapes (s.flatMap escape) = some s := by
  induction s with
  | nil => rfl
  | cons c s ih =>
    rw [List.flatMap_cons]
    rcases h c with ⟨hc, hslash⟩ | ⟨d, hc, hd⟩
    · rw [hc, List.singleton_append, unescaped_plain hslash, ih]
      rfl
    · rw [hc, List.cons_append, List.singleton_append, unescaped_escape, hd, ih]
      rfl

/-- **An escaped text between quotes is delimited by them.** -/
theorem delimits_escaped (hq : q ≠ '\\') (hescaped : ∀ c, IsEscaped q (escape c))
    (hencodes : Encodes escapes escape) (s : List Char) :
    Delimits q escapes (q :: (s.flatMap escape ++ [q])) s := by
  refine ⟨s.flatMap escape, rfl, unescaped_escaped hencodes s, fun rest => ?_⟩
  rw [List.cons_append, List.append_assoc, List.singleton_append, between?, if_pos rfl]
  exact bodyBefore_escaped hq hescaped s rest

theorem encodes_escapeDouble : Encodes doubleEscapes escapeDouble := by
  intro c
  unfold escapeDouble
  split_ifs with hmark hnewline hreturn htab
  · refine .inr ⟨c, rfl, ?_⟩
    rcases hmark with rfl | rfl <;> rfl
  · exact .inr ⟨'n', rfl, by rw [hnewline]; rfl⟩
  · exact .inr ⟨'r', rfl, by rw [hreturn]; rfl⟩
  · exact .inr ⟨'t', rfl, by rw [htab]; rfl⟩
  · exact .inl ⟨rfl, (not_or.mp hmark).1⟩

theorem encodes_escapeSingle : Encodes singleEscapes escapeSingle := by
  intro c
  unfold escapeSingle
  split_ifs with hmark
  · refine .inr ⟨c, rfl, ?_⟩
    rcases hmark with rfl | rfl <;> rfl
  · exact .inl ⟨rfl, (not_or.mp hmark).1⟩

theorem delimits_quoted (s : String) : Delimits '"' doubleEscapes (quoted s) s.toList :=
  delimits_escaped (by decide) isEscaped_escapeDouble encodes_escapeDouble s.toList

end Reading

/-! ## Identifiers -/

section Identifiers

variable {s s' : String}

/-- A letter or an underscore, then letters, digits and underscores, all of ASCII; and in no letter
case the word is reserved. -/
structure IsBareName (s : String) : Prop where
  word : ∃ c cs, s.toList = c :: cs ∧ (c.isAlpha ∨ c = '_') ∧ ∀ d ∈ cs, d.isAlphanum ∨ d = '_'
  free : ∀ w : String, w.toList.map Char.toLower = s.toList.map Char.toLower → w ∉ reserved

theorem isWord_iff {cs : List Char} : isWord cs ↔
    ∃ c ds, cs = c :: ds ∧ (c.isAlpha ∨ c = '_') ∧ ∀ d ∈ ds, d.isAlphanum ∨ d = '_' := by
  cases cs with
  | nil => simp [isWord]
  | cons c ds => simp [isWord, isWordStart, isWordChar]

/-- The reserved words are written in small letters. -/
theorem lower_of_mem_reserved {w : String} (h : w ∈ reserved) :
    w.toList.map Char.toLower = w.toList := by
  have hall : ∀ w ∈ reserved, w.toList.map Char.toLower = w.toList := by decide
  exact hall w h

theorem isReserved_iff {cs : List Char} :
    isReserved cs ↔ ∃ w ∈ reserved, w.toList.map Char.toLower = cs.map Char.toLower := by
  rw [isReserved, List.any_eq_true]
  refine exists_congr fun w => and_congr_right fun hw => ?_
  rw [lower_of_mem_reserved hw, decide_eq_true_iff]

theorem isBare_iff : isBare s.toList ↔ IsBareName s := by
  rw [isBare, Bool.and_eq_true, Bool.not_eq_true', ← Bool.not_eq_true, isWord_iff, isReserved_iff]
  constructor
  · rintro ⟨hword, hfree⟩
    exact ⟨hword, fun w hw hmem => hfree ⟨w, hmem, hw⟩⟩
  · rintro ⟨hword, hfree⟩
    refine ⟨hword, ?_⟩
    rintro ⟨w, hmem, hw⟩
    exact hfree w hw hmem

theorem identifier_of_isBareName (h : IsBareName s) : identifier s = s.toList :=
  identifier_of_isBare (isBare_iff.mpr h)

/-- An identifier that is not bare is a literal in brackets. -/
theorem delimits_identifier (h : ¬ IsBareName s) : ∃ literal,
    identifier s = '[' :: (literal ++ [']']) ∧ Delimits '\'' singleEscapes literal s.toList := by
  refine ⟨'\'' :: (s.toList.flatMap escapeSingle ++ ['\'']), ?_,
    delimits_escaped (by decide) isEscaped_escapeSingle encodes_escapeSingle s.toList⟩
  rw [identifier_of_not_isBare fun hbare => h (isBare_iff.mp hbare), List.cons_append,
    List.append_assoc]
  rfl

/-- A bare name does not begin with a bracket. -/
theorem IsBareName.toList_ne (h : IsBareName s) (cs : List Char) : s.toList ≠ '[' :: cs := by
  obtain ⟨c, ds, hs, hstart, -⟩ := h.word
  rw [hs]
  intro heq
  obtain rfl := (List.cons.inj heq).1
  revert hstart
  decide

theorem injective_quoted : Function.Injective quoted := by
  intro s s' h
  have hs' := delimits_quoted s'
  rw [← h] at hs'
  exact String.ext ((delimits_quoted s).unique hs')

theorem injective_identifier : Function.Injective identifier := by
  intro s s' h
  -- a bare name is its own form and a literal is read back; their first characters differ
  by_cases hs : IsBareName s
  · by_cases hs' : IsBareName s'
    · rw [identifier_of_isBareName hs, identifier_of_isBareName hs'] at h
      exact String.ext h
    · obtain ⟨literal, hliteral, -⟩ := delimits_identifier hs'
      rw [identifier_of_isBareName hs, hliteral] at h
      exact absurd h (hs.toList_ne _)
  · obtain ⟨literal, hliteral, hdelimits⟩ := delimits_identifier hs
    by_cases hs' : IsBareName s'
    · rw [identifier_of_isBareName hs', hliteral] at h
      exact absurd h.symm (hs'.toList_ne _)
    · obtain ⟨literal', hliteral', hdelimits'⟩ := delimits_identifier hs'
      rw [hliteral, hliteral'] at h
      obtain rfl := List.append_cancel_right (List.cons.inj h).2
      exact String.ext (hdelimits.unique hdelimits')

/-- **Quoting is exact.**  A quoted text shows where it ends, and stands for its text; so does what
is in the brackets of an identifier, unless the name is bare and stands as it is.  Different texts
and different names are written differently. -/
theorem quoting_exact :
    (∀ s, Delimits '"' doubleEscapes (quoted s) s.toList) ∧
    (∀ s, IsBareName s ∧ identifier s = s.toList ∨
      ¬ IsBareName s ∧ ∃ literal, identifier s = '[' :: (literal ++ [']']) ∧
        Delimits '\'' singleEscapes literal s.toList) ∧
    Function.Injective quoted ∧ Function.Injective identifier := by
  refine ⟨delimits_quoted, fun s => ?_, injective_quoted, injective_identifier⟩
  by_cases hs : IsBareName s
  · exact .inl ⟨hs, identifier_of_isBareName hs⟩
  · exact .inr ⟨hs, delimits_identifier hs⟩

end Identifiers

end Kusto.Kql
