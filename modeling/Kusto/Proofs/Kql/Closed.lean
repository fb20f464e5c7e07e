import Kusto.Proofs.Kql.Scanner

/-!
# Closed texts — what a scan enters and leaves in code

`Inert w`: no character of `w` means anything to a scanner.  Inert texts, quoted texts, identifiers
and comments are closed, whatever text the user typed into them; closed texts stay closed when they
are put in a row, in parentheses or in brackets.
-/

open Kusto.Text (joinWith joinWith_cons prepend)

namespace Kusto.Kql

/-- The characters that mean something to a scanner that stands in code. -/
def scannerMarks : List Char := ['"', '\'', '/', '(', ')', '[', ']', '|']

/-- None of the characters means anything to a scanner that stands in code. -/
def Inert (w : List Char) : Prop := ∀ c ∈ w, c ∉ scannerMarks

instance (w : List Char) : Decidable (Inert w) := List.decidableBAll (· ∉ scannerMarks) w

/-- A scan that enters the text in code leaves it in code, with the same brackets open; on the way
it meets no bar in code and closes none of the brackets that were open. -/
def Closed (w : List Char) : Prop :=
  ∀ p b : Int, Quiet p b ⟨.code, p, b⟩ w ⟨.code, p, b⟩

/-! ## Inert texts -/

section Inert

variable {u v : List Char}

theorem inert_nil : Inert [] := by simp [Inert]

theorem Inert.append (hu : Inert u) (hv : Inert v) : Inert (u ++ v) := by
  intro c hc
  rcases List.mem_append.mp hc with h | h
  · exact hu c h
  · exact hv c h

theorem Inert.cons {c : Char} (hc : c ∉ scannerMarks) (hv : Inert v) : Inert (c :: v) := by
  intro d hd
  rcases List.mem_cons.mp hd with rfl | h
  · exact hc
  · exact hv d h

theorem Inert.of_subset (hv : Inert v) (h : u ⊆ v) : Inert u := fun c hc => hv c (h hc)

/-- A class of characters that holds no mark of the scanner. -/
def Unmarked (P : Char → Bool) : Prop := scannerMarks.all fun c => !P c

instance (P : Char → Bool) : Decidable (Unmarked P) := inferInstanceAs (Decidable (_ = true))

theorem Unmarked.not_mem {P : Char → Bool} (hP : Unmarked P) {c : Char} (h : P c) :
    c ∉ scannerMarks := by
  intro hm
  have hc := List.all_eq_true.mp hP c hm
  rw [h] at hc
  exact absurd hc (by decide)

theorem Unmarked.inert {P : Char → Bool} (hP : Unmarked P) (h : ∀ c ∈ u, P c) : Inert u :=
  fun c hc => hP.not_mem (h c hc)

end Inert

theorem stepCode_of_not_mem {c : Char} (hc : c ∉ scannerMarks) (s : Scanner) :
    s.stepCode c = { s with place := .code } := by
  simp only [scannerMarks, List.mem_cons, List.not_mem_nil, not_or, or_false] at hc
  obtain ⟨h1, h2, h3, h4, h5, h6, h7, -⟩ := hc
  simp [Scanner.stepCode, h1, h2, h3, h4, h5, h6, h7]

/-! ## Closed texts -/

section Closed

variable {u v w : List Char}

theorem closed_nil : Closed [] := fun _ _ => .nil

theorem Closed.append (hu : Closed u) (hv : Closed v) : Closed (u ++ v) :=
  fun p b => (hu p b).append (hv p b)

theorem Inert.closed (h : Inert w) : Closed w := by
  intro p b
  induction w with
  | nil => exact .nil
  | cons c w ih =>
    have hc : c ∉ scannerMarks := h c (by simp)
    refine .cons_ne .code (stepCode_of_not_mem hc _) ?_ (ih fun d hd => h d (by simp [hd]))
    rintro rfl
    exact hc (by decide)

/-- A closed text between a bracket `o` that takes the counts from `p` and `b` to `p'` and `b'`
and a bracket `k` that takes them back. -/
theorem Closed.enclosed {p b p' b' : Int} {o k : Char} (h : Closed w) (hp : p ≤ p') (hb : b ≤ b')
    (ho : o ≠ '|') (hopen : Scanner.step ⟨.code, p, b⟩ o = ⟨.code, p', b'⟩)
    (hk : k ≠ '|') (hclose : Scanner.step ⟨.code, p', b'⟩ k = ⟨.code, p, b⟩) :
    Quiet p b ⟨.code, p, b⟩ (o :: (w ++ [k])) ⟨.code, p, b⟩ := by
  refine .cons hopen (fun e => absurd e ho) (Int.le_refl p) (Int.le_refl b) ?_
  refine ((h p' b').mono hp hb).append ?_
  exact .cons hclose (fun e => absurd e hk) hp hb .nil

theorem Closed.parens (h : Closed w) : Closed ('(' :: (w ++ [')'])) := by
  intro p b
  have hclose : Scanner.step ⟨.code, p + 1, b⟩ ')' = ⟨.code, p, b⟩ := by
    show (⟨.code, p + 1 - 1, b⟩ : Scanner) = _
    rw [Int.add_sub_cancel]
  exact h.enclosed (by omega : p ≤ p + 1) (Int.le_refl b) (by decide) rfl (by decide) hclose

theorem Closed.brackets (h : Closed w) : Closed ('[' :: (w ++ [']'])) := by
  intro p b
  have hclose : Scanner.step ⟨.code, p, b + 1⟩ ']' = ⟨.code, p, b⟩ := by
    show (⟨.code, p, b + 1 - 1⟩ : Scanner) = _
    rw [Int.add_sub_cancel]
  exact h.enclosed (Int.le_refl p) (by omega : b ≤ b + 1) (by decide) rfl (by decide) hclose

theorem closed_flatMap {α : Type} {f : α → List Char} {xs : List α}
    (h : ∀ x ∈ xs, Closed (f x)) : Closed (xs.flatMap f) := by
  induction xs with
  | nil => exact closed_nil
  | cons x xs ih =>
    rw [List.flatMap_cons]
    exact (h x (by simp)).append (ih fun y hy => h y (by simp [hy]))

theorem closed_joinWith {sep : List Char} (hs : Closed sep) {ws : List (List Char)}
    (h : ∀ w ∈ ws, Closed w) : Closed (joinWith sep ws) := by
  induction ws with
  | nil => exact closed_nil
  | cons w ws ih =>
    have hw : Closed w := h w (by simp)
    by_cases hne : ws = []
    · subst hne
      exact hw
    · rw [joinWith_cons _ _ hne]
      exact (hw.append hs).append (ih fun x hx => h x (by simp [hx]))

end Closed

/-! ## Literals -/

section Literals

variable {p b : Int}

/-- One character that neither ends a literal of `q` nor escapes, or an escaped one. -/
def IsEscaped (q : Char) (w : List Char) : Prop :=
  (∃ c, w = [c] ∧ c ≠ '\\' ∧ c ≠ q) ∨ ∃ c, w = ['\\', c]

theorem isEscaped_escapeDouble (c : Char) : IsEscaped '"' (escapeDouble c) := by
  unfold escapeDouble
  split
  · exact .inr ⟨c, rfl⟩
  · rename_i h
    obtain ⟨h1, h2⟩ := not_or.mp h
    split_ifs
    · exact .inr ⟨_, rfl⟩
    · exact .inr ⟨_, rfl⟩
    · exact .inr ⟨_, rfl⟩
    · exact .inl ⟨c, rfl, h1, h2⟩

theorem isEscaped_escapeSingle (c : Char) : IsEscaped '\'' (escapeSingle c) := by
  unfold escapeSingle
  split
  · exact .inr ⟨c, rfl⟩
  · rename_i h
    obtain ⟨h1, h2⟩ := not_or.mp h
    exact .inl ⟨c, rfl, h1, h2⟩

/-- An escaped text keeps the scan inside its literal. -/
theorem quiet_literal {q : Char} {esc : Char → List Char} (h : ∀ c, IsEscaped q (esc c))
    (cs : List Char) :
    Quiet p b ⟨.literal q, p, b⟩ (cs.flatMap esc) ⟨.literal q, p, b⟩ := by
  induction cs with
  | nil => exact .nil
  | cons c cs ih =>
    rw [List.flatMap_cons]
    refine Quiet.append ?_ ih
    rcases h c with ⟨d, hd, h1, h2⟩ | ⟨d, hd⟩
    · rw [hd]
      exact .cons_inside (.literal q) (by simp [Scanner.step, h1, h2]) (by simp) (.nil)
    · rw [hd]
      refine .cons_inside (.escape q) rfl (by simp) ?_
      exact .cons_inside (.literal q) rfl (by simp) (.nil)

/-- A literal is closed, whatever is escaped in it. -/
theorem closed_literal {q : Char} (hq : q = '"' ∨ q = '\'') {esc : Char → List Char}
    (h : ∀ c, IsEscaped q (esc c)) (cs : List Char) : Closed (q :: (cs.flatMap esc ++ [q])) := by
  intro p b
  obtain ⟨h1, h2⟩ : q ≠ '|' ∧ q ≠ '\\' := by rcases hq with rfl | rfl <;> decide
  refine .cons_ne (.literal q) (by simp [Scanner.step, Scanner.stepCode, hq]) h1 ?_
  refine (quiet_literal h cs).append ?_
  exact .cons_ne .code (by simp [Scanner.step, h2]) h1 (.nil)

theorem closed_quoted (s : String) : Closed (quoted s) :=
  closed_literal (.inl rfl) isEscaped_escapeDouble _

theorem inert_of_isWord {cs : List Char} (h : isWord cs) : Inert cs := by
  cases cs with
  | nil => exact inert_nil
  | cons c cs =>
    simp only [isWord, Bool.and_eq_true, List.all_eq_true] at h
    have hstart : Unmarked isWordStart := by decide
    have hword : Unmarked isWordChar := by decide
    exact .cons (hstart.not_mem h.1) (hword.inert h.2)

/-- An identifier is closed, in brackets or bare. -/
theorem closed_identifier (name : String) : Closed (identifier name) := by
  by_cases hbare : isBare name.toList
  · have hword := hbare
    simp only [isBare, Bool.and_eq_true] at hword
    rw [identifier_of_isBare hbare]
    exact (inert_of_isWord hword.1).closed
  · have h := (closed_literal (q := '\'') (.inr rfl) isEscaped_escapeSingle name.toList).brackets
    rw [identifier_of_not_isBare hbare]
    simpa using h

end Literals

/-! ## Comments -/

section Comments

variable {p b : Int}

/-- Behind the opening of a comment no part of an unclosed text ends it.  The scan may stand
behind a star of the text before, if the text does not go on with a slash. -/
theorem quiet_unclosed (cs : List Char) (l : Place)
    (hl : l = .comment ∨ l = .star ∧ cs.head? ≠ some '/') :
    ∃ k : Place, (k = .comment ∨ k = .star) ∧ Quiet p b ⟨l, p, b⟩ (unclosed cs) ⟨k, p, b⟩ := by
  -- the scan is in the comment or right behind a star, and a slash would tell the two apart
  fun_induction unclosed cs generalizing l with
  | case1 cs ih =>
    obtain ⟨k, hk, hq⟩ := ih .comment (.inl rfl)
    refine ⟨k, hk, .cons_ne .star ?_ (by decide) ?_⟩
    · rcases hl with rfl | ⟨rfl, -⟩ <;> rfl
    · exact .cons_ne .comment rfl (by decide) (.cons_ne .comment rfl (by decide) hq)
  | case2 c cs hcs ih =>
    have hin : l ≠ .code ∧ l ≠ .slash := by rcases hl with rfl | ⟨rfl, -⟩ <;> simp
    by_cases hc : c = '*'
    · subst hc
      have hhead : cs.head? ≠ some '/' := by
        intro h
        obtain ⟨ds, rfl⟩ := List.head?_eq_some_iff.mp h
        exact hcs ds rfl rfl
      obtain ⟨k, hk, hq⟩ := ih .star (.inr ⟨rfl, hhead⟩)
      refine ⟨k, hk, .cons_inside .star ?_ hin hq⟩
      rcases hl with rfl | ⟨rfl, -⟩ <;> rfl
    · obtain ⟨k, hk, hq⟩ := ih .comment (.inl rfl)
      refine ⟨k, hk, .cons_inside .comment ?_ hin hq⟩
      rcases hl with rfl | ⟨rfl, hne⟩
      · simp [Scanner.step, hc]
      · have hne' : c ≠ '/' := by simpa using hne
        simp [Scanner.step, hc, hne']
  | case3 =>
    refine ⟨l, ?_, .nil⟩
    rcases hl with rfl | ⟨rfl, -⟩ <;> simp

/-- A comment is closed, whatever its message. -/
theorem closed_comment (s : String) : Closed (comment s) := by
  intro p b
  refine .cons_ne .slash rfl (by decide) (.cons_ne .comment rfl (by decide) ?_)
  refine .cons_ne .comment rfl (by decide) ?_
  obtain ⟨k, hk, hq⟩ := quiet_unclosed (p := p) (b := b) s.toList .comment (.inl rfl)
  refine hq.append (.cons_ne .comment ?_ (by decide) ?_)
  · rcases hk with rfl | rfl <;> rfl
  · exact .cons_ne .star rfl (by decide) (.cons_ne .code rfl (by decide) (.nil))

end Comments

/-! ## Closed texts between bars -/

section Bars

open Scanner

variable {p b : Int} {w : List Char} {ws : List (List Char)}

/-- Each text behind a bar. -/
def behindBars (ws : List (List Char)) : List Char := ws.flatMap (render Pipeline.bar ++ ·)

theorem behindBars_cons (x : List Char) (ws : List (List Char)) :
    behindBars (x :: ws) = ' ' :: '|' :: ' ' :: (x ++ behindBars ws) := rfl

/-- Closed texts behind bars leave the scan as it is. -/
theorem run_behindBars (h : ∀ x ∈ ws, Closed x) :
    run ⟨.code, p, b⟩ (behindBars ws) = ⟨.code, p, b⟩ := by
  induction ws with
  | nil => rfl
  | cons x ws ih =>
    show run ⟨.code, p, b⟩ (x ++ behindBars ws) = _
    rw [run_append, (h x (by simp) p b).run_eq]
    exact ih fun y hy => h y (by simp [hy])

/-- Closed texts behind bars show one bar each. -/
theorem bars_behindBars (h : ∀ x ∈ ws, Closed x) :
    bars ⟨.code, p, b⟩ (behindBars ws) = List.replicate ws.length ⟨.code, p, b⟩ := by
  induction ws with
  | nil => rfl
  | cons x ws ih =>
    have hx := h x (by simp) p b
    show ⟨.code, p, b⟩ :: bars ⟨.code, p, b⟩ (x ++ behindBars ws) = _
    rw [bars_append, hx.bars_eq, hx.run_eq, ih fun y hy => h y (by simp [hy])]
    rfl

theorem steady_behindBars (h : ∀ x ∈ ws, Closed x) : Steady p b ⟨.code, p, b⟩ (behindBars ws) := by
  induction ws with
  | nil => exact steady_nil (Int.le_refl p) (Int.le_refl b)
  | cons x ws ih =>
    have hx := h x (by simp) p b
    have hrest : Steady p b ⟨.code, p, b⟩ (x ++ behindBars ws) := by
      refine hx.steady.append ?_
      rw [hx.run_eq]
      exact ih fun y hy => h y (by simp [hy])
    rw [behindBars_cons]
    exact .cons (Int.le_refl p) (Int.le_refl b) (.cons (Int.le_refl p) (Int.le_refl b)
      (.cons (Int.le_refl p) (Int.le_refl b) hrest))

/-- The cuts of a text without bars followed by closed texts behind bars. -/
theorem cuts_behindBars {here : Scanner → Bool} (hh : here ⟨.code, p, b⟩) {s : Scanner}
    (hw : s.bars w = []) (hs : s.run w = ⟨.code, p, b⟩) (h : ∀ x ∈ ws, Closed x) :
    cuts here s (w ++ behindBars ws) = aroundBars w ws := by
  induction ws generalizing s w with
  | nil =>
    have hcut : cuts here s (w ++ []) = w.foldr prepend (cuts here (s.run w) []) :=
      cuts_append (by rw [hw]; rfl) []
    rw [show behindBars [] = [] from rfl, hcut, cuts, foldr_prepend, List.append_nil]
    rfl
  | cons x ws ih =>
    have hx := h x (by simp) p b
    -- the blank before a bar goes with the text in front, the one behind it with the next piece
    have hspace : bars s (w ++ [' ']) = [] := by
      rw [bars_append, hw, hs]
      rfl
    have hrun : run s (w ++ [' ']) = ⟨.code, p, b⟩ := by
      rw [run_append, hs]
      rfl
    have htail : cuts here ⟨.code, p, b⟩ ((' ' :: x) ++ behindBars ws) =
        aroundBars (' ' :: x) ws :=
      ih hx.bars_eq hx.run_eq fun y hy => h y (by simp [hy])
    have hcut : cuts here ⟨.code, p, b⟩ ('|' :: ' ' :: (x ++ behindBars ws)) =
        [] :: aroundBars (' ' :: x) ws := by
      rw [← htail]
      exact if_pos ⟨rfl, rfl, hh⟩
    have hsplit : w ++ behindBars (x :: ws) =
        (w ++ [' ']) ++ ('|' :: ' ' :: (x ++ behindBars ws)) := by
      rw [behindBars_cons, List.append_assoc]
      rfl
    rw [hsplit, cuts_append (by rw [hspace]; rfl), hrun, hcut, foldr_prepend, List.append_nil]
    rfl

/-- **Closed texts stay in place**: put behind bars, each is found again between two bars. -/
theorem confined_behindBars (hw : Closed w) (h : ∀ x ∈ ws, Closed x) :
    Confined w ws (w ++ behindBars ws) := by
  have hw0 := hw 0 0
  refine ⟨?_, ?_, ?_, cuts_behindBars rfl hw0.bars_eq hw0.run_eq h⟩
  · rw [run_append, hw0.run_eq, run_behindBars h]
  · refine hw0.steady.append ?_
    rw [hw0.run_eq]
    exact steady_behindBars h
  · rw [bars_append, hw0.bars_eq, hw0.run_eq, bars_behindBars h]
    rfl

end Bars

end Kusto.Kql
