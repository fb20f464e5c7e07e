import Kusto.Kql.Pipeline
import Mathlib.Data.List.Basic

/-!
# Scanner — the text of a query read from left to right

A scanner tells code from literals and comments and counts the parentheses and brackets that are
open.  A text is cut at the bars that its scan meets in code.

* `Quiet p b s w t`: the scan of `w` leads from `s` to `t`, meets no bar in code and never has
  fewer than `p` parentheses or `b` brackets open.
* `Confined w ws text`: the scan of `text` ends as it began, and its bars are those that stand
  between `w` and the texts `ws`.
-/

open Kusto.Text (prepend)

namespace Kusto.Kql

/-- Where a scanner stands in a text. -/
inductive Place where
  | code
  /-- In code, behind a slash. -/
  | slash
  /-- In a literal that ends at `quote`. -/
  | literal (quote : Char)
  /-- In such a literal, behind a backslash. -/
  | escape (quote : Char)
  | comment
  /-- In a comment, behind a star. -/
  | star
  deriving DecidableEq

/-- Where a scanner stands, and how many parentheses and brackets are open. -/
structure Scanner where
  place : Place := .code
  parens : Int := 0
  brackets : Int := 0
  deriving DecidableEq

namespace Scanner

/-- The scanner stands outside literals and comments. -/
def inCode (s : Scanner) : Bool := s.place = .code || s.place = .slash

/-- Read one character of code. -/
def stepCode (s : Scanner) (c : Char) : Scanner :=
  if c = '"' ∨ c = '\'' then { s with place := .literal c }
  else if c = '/' then { s with place := .slash }
  else if c = '(' then { s with place := .code, parens := s.parens + 1 }
  else if c = ')' then { s with place := .code, parens := s.parens - 1 }
  else if c = '[' then { s with place := .code, brackets := s.brackets + 1 }
  else if c = ']' then { s with place := .code, brackets := s.brackets - 1 }
  else { s with place := .code }

/-- Read one character. -/
def step (s : Scanner) (c : Char) : Scanner :=
  match s.place with
  | .code => s.stepCode c
  | .slash => if c = '*' then { s with place := .comment } else s.stepCode c
  | .literal q =>
    if c = '\\' then { s with place := .escape q }
    else if c = q then { s with place := .code }
    else s
  | .escape q => { s with place := .literal q }
  | .comment => if c = '*' then { s with place := .star } else s
  | .star =>
    if c = '/' then { s with place := .code }
    else if c = '*' then s
    else { s with place := .comment }

/-- Read a text. -/
def run (s : Scanner) (cs : List Char) : Scanner := cs.foldl step s

/-- The states in which a bar is met in code. -/
def bars : Scanner → List Char → List Scanner
  | _, [] => []
  | s, c :: cs =>
    if c = '|' ∧ s.inCode then s :: bars (s.step c) cs else bars (s.step c) cs

/-- The pieces of a text between those bars in code at which `here` holds. -/
def cuts (here : Scanner → Bool) : Scanner → List Char → List (List Char)
  | _, [] => [[]]
  | s, c :: cs =>
    if c = '|' ∧ s.inCode ∧ here s then [] :: cuts here (s.step c) cs
    else prepend c (cuts here (s.step c) cs)

@[simp] theorem run_nil (s : Scanner) : s.run [] = s := rfl

@[simp] theorem run_cons (s : Scanner) (c : Char) (cs : List Char) :
    s.run (c :: cs) = (s.step c).run cs := rfl

theorem run_append (s : Scanner) (u v : List Char) : s.run (u ++ v) = (s.run u).run v := by
  simp [run, List.foldl_append]

theorem bars_append (s : Scanner) (u v : List Char) :
    s.bars (u ++ v) = s.bars u ++ (s.run u).bars v := by
  induction u generalizing s with
  | nil => rfl
  | cons c u ih =>
    simp only [List.cons_append, bars, run_cons, ih]
    split <;> rfl

theorem cuts_ne_nil (here : Scanner → Bool) (s : Scanner) (cs : List Char) :
    cuts here s cs ≠ [] := by
  cases cs with
  | nil => simp [cuts]
  | cons c cs =>
    unfold cuts prepend
    split
    · simp
    · split <;> simp

theorem length_prepend {ps : List (List Char)} (h : ps ≠ []) (c : Char) :
    (prepend c ps).length = ps.length := by
  cases ps with
  | nil => exact absurd rfl h
  | cons p ps => rfl

/-- There is one piece more than there are bars. -/
theorem length_cuts (here : Scanner → Bool) (s : Scanner) (cs : List Char) :
    (cuts here s cs).length = ((s.bars cs).filter here).length + 1 := by
  induction cs generalizing s with
  | nil => rfl
  | cons c cs ih =>
    have hne := cuts_ne_nil here (s.step c) cs
    unfold cuts bars
    by_cases hc : c = '|' ∧ s.inCode
    · by_cases hh : here s
      · simp [hc, hh, ih]
      · rw [if_neg (by simp [hh]), if_pos hc, length_prepend hne, ih, List.filter_cons_of_neg hh]
    · have hc' : ¬ (c = '|' ∧ s.inCode ∧ here s) := fun h => hc ⟨h.1, h.2.1⟩
      rw [if_neg hc, if_neg hc', length_prepend hne, ih]

theorem foldr_prepend (u p : List Char) (ps : List (List Char)) :
    u.foldr prepend (p :: ps) = (u ++ p) :: ps := by
  induction u with
  | nil => rfl
  | cons c u ih => rw [List.foldr_cons, ih]; rfl

/-- A text in front that has no cut of its own joins the first piece. -/
theorem cuts_append {here : Scanner → Bool} {s : Scanner} {u : List Char}
    (h : (s.bars u).filter here = []) (v : List Char) :
    cuts here s (u ++ v) = u.foldr prepend (cuts here (s.run u) v) := by
  induction u generalizing s with
  | nil => rfl
  | cons c u ih =>
    unfold bars at h
    by_cases hc : c = '|' ∧ s.inCode
    · rw [if_pos hc] at h
      -- a bar of the text in front is no cut, since it is not in a place that is asked for
      by_cases hh : here s
      · rw [List.filter_cons_of_pos hh] at h
        exact absurd h (by simp)
      · rw [List.filter_cons_of_neg hh] at h
        simp [cuts, hh, ih h]
    · rw [if_neg hc] at h
      have hc' : ¬ (c = '|' ∧ s.inCode ∧ here s) := fun h => hc ⟨h.1, h.2.1⟩
      simp [cuts, hc', ih h]

/-- The first piece stands at the front of the text. -/
theorem prefix_of_cuts {here : Scanner → Bool} {s : Scanner} {cs p : List Char}
    {ps : List (List Char)} (h : cuts here s cs = p :: ps) : p <+: cs := by
  induction cs generalizing s p ps with
  | nil =>
    obtain ⟨rfl, -⟩ := List.cons_eq_cons.mp h
    exact List.nil_prefix
  | cons c cs ih =>
    unfold cuts at h
    split at h
    · obtain ⟨rfl, -⟩ := List.cons_eq_cons.mp h
      exact List.nil_prefix
    · cases hq : cuts here (s.step c) cs with
      | nil => exact absurd hq (cuts_ne_nil _ _ _)
      | cons q qs =>
        rw [hq] at h
        obtain ⟨rfl, -⟩ := List.cons_eq_cons.mp h
        exact List.cons_prefix_cons.mpr ⟨rfl, ih hq⟩

/-- The quote of the literal in which the scanner stands is a single or a double one. -/
def QuoteKnown (s : Scanner) : Prop :=
  match s.place with
  | .literal q | .escape q => q = '"' ∨ q = '\''
  | _ => True

theorem quoteKnown_stepCode (s : Scanner) (c : Char) : (s.stepCode c).QuoteKnown := by
  unfold stepCode
  split_ifs with h
  · exact h
  all_goals trivial

theorem QuoteKnown.step {s : Scanner} (h : s.QuoteKnown) (c : Char) : (s.step c).QuoteKnown := by
  obtain ⟨l, p, b⟩ := s
  cases l with
  | code => exact quoteKnown_stepCode _ c
  | slash =>
    show QuoteKnown (if c = '*' then _ else _)
    split
    · trivial
    · exact quoteKnown_stepCode _ c
  | literal q =>
    show QuoteKnown (if c = '\\' then _ else if c = q then _ else _)
    split_ifs
    · exact h
    · trivial
    · exact h
  | escape q => exact h
  | comment =>
    show QuoteKnown (if c = '*' then _ else _)
    split <;> trivial
  | star =>
    show QuoteKnown (if c = '/' then _ else if c = '*' then _ else _)
    split_ifs <;> trivial

theorem QuoteKnown.run {s : Scanner} (h : s.QuoteKnown) (cs : List Char) :
    (s.run cs).QuoteKnown := by
  induction cs generalizing s with
  | nil => exact h
  | cons c cs ih => exact ih (h.step c)

end Scanner

/-- Along the scan of `w` from `s` at least `p` parentheses and `b` brackets are open. -/
def Steady (p b : Int) (s : Scanner) (w : List Char) : Prop :=
  ∀ u, u <+: w → p ≤ (s.run u).parens ∧ b ≤ (s.run u).brackets

/-- The first text and the others, with the single spaces that stand around the bars between
them. -/
def aroundBars : List Char → List (List Char) → List (List Char)
  | w, [] => [w]
  | w, x :: ws => (w ++ [' ']) :: aroundBars (' ' :: x) ws

/-- `text` is `w` and `ws` with bars between them, and nothing else in it acts as a bar: its scan
ends as it began, closes no bracket that is not open, and meets in code one bar for each of `ws`,
outside of all brackets. -/
structure Confined (w : List Char) (ws : List (List Char)) (text : List Char) : Prop where
  run_eq : Scanner.run {} text = {}
  steady : Steady 0 0 {} text
  bars_eq : Scanner.bars {} text = List.replicate ws.length {}
  cuts_eq : Scanner.cuts (fun _ => true) {} text = aroundBars w ws

/-! ## Steady scans -/

section Steady

variable {p b : Int} {s : Scanner} {u v w : List Char}

theorem steady_nil (hp : p ≤ s.parens) (hb : b ≤ s.brackets) : Steady p b s [] := by
  intro u hu
  obtain rfl := List.prefix_nil.mp hu
  exact ⟨hp, hb⟩

theorem Steady.cons {c : Char} (hp : p ≤ s.parens) (hb : b ≤ s.brackets)
    (h : Steady p b (s.step c) w) : Steady p b s (c :: w) := by
  intro u hu
  cases u with
  | nil => exact ⟨hp, hb⟩
  | cons d u =>
    obtain ⟨rfl, hu'⟩ := List.cons_prefix_cons.mp hu
    exact h u hu'

theorem Steady.append (hu : Steady p b s u) (hv : Steady p b (s.run u) v) :
    Steady p b s (u ++ v) := by
  induction u generalizing s with
  | nil => exact hv
  | cons c u ih =>
    obtain ⟨hp, hb⟩ := hu [] List.nil_prefix
    refine .cons hp hb (ih ?_ hv)
    intro x hx
    exact hu (c :: x) (List.cons_prefix_cons.mpr ⟨rfl, hx⟩)

theorem Steady.mono {p' b' : Int} (h : Steady p b s w) (hp : p' ≤ p) (hb : b' ≤ b) :
    Steady p' b' s w := by
  intro u hu
  obtain ⟨h1, h2⟩ := h u hu
  omega

end Steady

/-! ## Quiet scans -/

section Quiet

open Scanner

/-- The scan of `w` leads from `s` to `t`, meets no bar in code, and on the way at least `p`
parentheses and `b` brackets are open. -/
structure Quiet (p b : Int) (s : Scanner) (w : List Char) (t : Scanner) : Prop where
  run_eq : s.run w = t
  bars_eq : s.bars w = []
  steady : Steady p b s w

variable {p b : Int} {l : Place} {c : Char} {s t r : Scanner} {u v w : List Char}

theorem Quiet.nil : Quiet p b ⟨l, p, b⟩ [] ⟨l, p, b⟩ :=
  ⟨rfl, rfl, steady_nil (Int.le_refl p) (Int.le_refl b)⟩

theorem Quiet.cons (hs : s.step c = r) (hc : c = '|' → ¬ s.inCode) (hp : p ≤ s.parens)
    (hb : b ≤ s.brackets) (h : Quiet p b r w t) : Quiet p b s (c :: w) t := by
  subst hs
  refine ⟨h.run_eq, ?_, h.steady.cons hp hb⟩
  unfold bars
  rw [if_neg (fun e => hc e.1 e.2), h.bars_eq]

theorem Quiet.append (h : Quiet p b s u t) (h' : Quiet p b t v r) : Quiet p b s (u ++ v) r := by
  obtain ⟨rfl, hb, hs⟩ := h
  refine ⟨?_, ?_, hs.append h'.steady⟩
  · rw [run_append, h'.run_eq]
  · rw [bars_append, hb, h'.bars_eq, List.append_nil]

theorem Quiet.mono {p' b' : Int} (h : Quiet p b s w t) (hp : p' ≤ p) (hb : b' ≤ b) :
    Quiet p' b' s w t := ⟨h.run_eq, h.bars_eq, h.steady.mono hp hb⟩

/-- A step on a character other than a bar that leaves all brackets as they are. -/
theorem Quiet.cons_ne (k : Place) (hs : step ⟨l, p, b⟩ c = ⟨k, p, b⟩) (hc : c ≠ '|')
    (h : Quiet p b ⟨k, p, b⟩ w t) : Quiet p b ⟨l, p, b⟩ (c :: w) t :=
  .cons hs (fun e => absurd e hc) (Int.le_refl p) (Int.le_refl b) h

/-- A step inside a literal or a comment. -/
theorem Quiet.cons_inside (k : Place) (hs : step ⟨l, p, b⟩ c = ⟨k, p, b⟩)
    (hl : l ≠ .code ∧ l ≠ .slash) (h : Quiet p b ⟨k, p, b⟩ w t) :
    Quiet p b ⟨l, p, b⟩ (c :: w) t :=
  .cons hs (fun _ => by simp [inCode, hl]) (Int.le_refl p) (Int.le_refl b) h

end Quiet

end Kusto.Kql
