import Kusto.Kql.Recognizer
import Kusto.Proofs.Kql.Closed
import Kusto.Proofs.Text.Blank
import Kusto.Time.Reading
import Mathlib.Data.List.TakeWhile

/-!
# Literals — the values that are written without quotes

Numbers, template variables, timespans and points of time are inert as they are written, and a
relative time is closed.  A reader of times is looked at from its end: if what it leaves is inert,
so is the text that it was given (`TakesInert`).
-/

open Kusto.Number (Layout natText intText positional exponential)
open Kusto.Text (trimLeft trimmed trim isBlank isDecimalDigit toList_trim trimmed_trimmed)
open Kusto.Time

namespace Kusto.Kql

/-! ## Classes of characters -/

section Classes

theorem unmarked_isDigit : Unmarked Char.isDigit := by decide

theorem unmarked_isDecimalDigit : Unmarked isDecimalDigit := by decide

theorem unmarked_isBlank : Unmarked isBlank := by decide

theorem unmarked_isVariableChar : Unmarked isVariableChar := by decide

theorem inert_takeWhile_append {cs : List Char} {P : Char → Bool} (hP : Unmarked P)
    (h : Inert (cs.dropWhile P)) : Inert cs := by
  rw [← List.takeWhile_append_dropWhile (p := P) (l := cs)]
  refine Inert.append (hP.inert ?_) h
  intro c hc
  exact List.mem_takeWhile_imp hc

end Classes

/-! ## Numbers -/

section Numbers

theorem inert_natText (n : Nat) : Inert (natText n) := by
  refine unmarked_isDigit.inert fun c hc => ?_
  exact Nat.isDigit_of_mem_toDigits (by decide) (by decide) hc

theorem inert_intText (n : Int) : Inert (intText n) := by
  unfold intText
  split
  · exact (inert_natText _).cons (by decide)
  · exact inert_natText _

theorem inert_replicate {c : Char} (hc : c ∉ scannerMarks) (n : Nat) :
    Inert (List.replicate n c) := by
  intro d hd
  rw [List.eq_of_mem_replicate hd]
  exact hc

variable {digits : List Char}

theorem inert_positional (h : Inert digits) (k : Int) : Inert (positional digits k) := by
  have hz := inert_replicate (c := '0') (by decide)
  unfold positional
  dsimp only
  split_ifs
  · exact (((hz _).append h).cons (by decide)).cons (by decide)
  · exact (h.append (hz _)).append (by decide)
  · refine (h.of_subset (List.take_subset _ _)).append (Inert.cons (by decide) ?_)
    exact h.of_subset (List.drop_subset _ _)

theorem inert_exponential (h : Inert digits) (plus : Bool) (k : Int) :
    Inert (exponential plus digits k) := by
  have hsign : Inert (if plus && 0 ≤ k then ['+'] else []) := by
    split
    · decide
    · exact inert_nil
  have hexp := hsign.append (inert_intText k)
  unfold exponential
  split
  · rename_i d e rest
    refine Inert.append ?_ (hexp.cons (by decide))
    have hd : d ∉ scannerMarks := h d (by simp)
    exact Inert.cons hd (Inert.cons (by decide) (h.of_subset (by simp)))
  · exact h.append (hexp.cons (by decide))

theorem inert_finite (layout : Layout) (x : Number.Binary64.Finite) :
    Inert (layout.finite x) := by
  have hbody : Inert (layout.decimal x.shortest) := by
    unfold Layout.decimal
    dsimp only
    split
    · exact inert_positional (inert_natText _) _
    · exact inert_exponential (inert_natText _) _ _
  unfold Layout.finite
  dsimp only
  split
  · exact hbody.cons (by decide)
  · exact hbody

end Numbers

/-! ## Blanks around a value -/

section Blanks

variable {cs : List Char}

theorem isTemplateVariable_trim (s : String) :
    isTemplateVariable (trim s) = isTemplateVariable s := by
  rw [isTemplateVariable, isTemplateVariable, toList_trim, trimmed_trimmed]

theorem isRelativeTime_trim (s : String) : isRelativeTime (trim s) = isRelativeTime s := by
  rw [isRelativeTime, isRelativeTime, toList_trim, trimmed_trimmed]

theorem isTimespanLiteral_trim (s : String) :
    isTimespanLiteral (trim s) = isTimespanLiteral s := by
  rw [isTimespanLiteral, isTimespanLiteral, toList_trim, trimmed_trimmed]

theorem inert_of_trimLeft (h : Inert (trimLeft cs)) : Inert cs :=
  inert_takeWhile_append unmarked_isBlank h

/-- Trimming takes off inert texts at both ends. -/
theorem exists_trimmed (cs : List Char) :
    ∃ u v, cs = u ++ trimmed cs ++ v ∧ Inert u ∧ Inert v := by
  obtain ⟨u, v, hcs, hu, hv⟩ := Text.exists_blanks cs
  exact ⟨u, v, hcs, unmarked_isBlank.inert hu, unmarked_isBlank.inert hv⟩

theorem inert_of_trimmed (h : Inert (trimmed cs)) : Inert cs := by
  obtain ⟨u, v, hcs, hu, hv⟩ := exists_trimmed cs
  rw [hcs]
  exact (hu.append h).append hv

theorem closed_of_trimmed (h : Closed (trimmed cs)) : Closed cs := by
  obtain ⟨u, v, hcs, hu, hv⟩ := exists_trimmed cs
  rw [hcs]
  exact (hu.closed.append h).append hv.closed

end Blanks

/-! ## Recognized values -/

section Recognized

variable {cs : List Char} {s : String}

theorem inert_of_isVariable (h : isVariable cs) : Inert cs := by
  unfold isVariable at h
  split at h
  · rename_i rest
    split at h
    · rename_i name hname
      simp only [Bool.and_eq_true, List.all_eq_true] at h
      have hrest : rest = name.reverse ++ ['\x7d'] := by
        rw [← List.reverse_reverse rest, hname, List.reverse_cons]
      have hchars : Inert name := unmarked_isVariableChar.inert h.2
      rw [hrest]
      refine Inert.cons (by decide) (Inert.cons (by decide) (Inert.append ?_ (by decide)))
      exact hchars.of_subset (by simp)
    · exact absurd h (by simp)
  · exact (inert_of_isWord h).cons (by decide)
  · exact absurd h (by simp)

/-- Every variable begins with a dollar sign. -/
theorem mem_of_isVariable (h : isVariable cs) : '$' ∈ cs := by
  unfold isVariable at h
  split at h
  · exact List.mem_cons_self
  · exact List.mem_cons_self
  · exact absurd h (by simp)

theorem inert_of_isTimespanUnit (h : isTimespanUnit cs) : Inert cs := by
  simp only [isTimespanUnit, List.any_eq_true, decide_eq_true_eq] at h
  obtain ⟨u, hu, rfl⟩ := h
  exact (by decide : ∀ u ∈ timespanUnits, Inert u.toList) u hu

theorem inert_of_isTimespan (h : isTimespan cs) : Inert cs := by
  unfold isTimespan at h
  simp only [Bool.and_eq_true] at h
  refine inert_takeWhile_append unmarked_isDecimalDigit ?_
  replace h := h.2
  split at h
  · rename_i more hmore
    simp only [Bool.and_eq_true] at h
    rw [hmore]
    have hunit := inert_takeWhile_append unmarked_isDecimalDigit (inert_of_isTimespanUnit h.2)
    exact hunit.cons (by decide)
  · exact inert_of_isTimespanUnit h

theorem inert_of_isTemplateVariable (h : isTemplateVariable s) : Inert s.toList :=
  inert_of_trimmed (inert_of_isVariable h)

theorem inert_of_isTimespanLiteral (h : isTimespanLiteral s) : Inert s.toList :=
  inert_of_trimmed (inert_of_isTimespan h)

theorem closed_of_isRelative (h : isRelative cs) : Closed cs := by
  unfold isRelative at h
  split at h
  · rename_i rest
    split at h
    · rename_i inner hinner
      have hrest : rest = inner.reverse ++ [')'] := by
        rw [← List.reverse_reverse rest, hinner, List.reverse_cons]
      have hin : Inert inner.reverse := inert_of_trimmed (inert_of_isTimespan h)
      rw [hrest]
      exact (by decide : Inert ['a', 'g', 'o']).closed.append hin.closed.parens
    · exact absurd h (by simp)
  · rw [of_decide_eq_true h]
    exact (by decide : Inert ['n', 'o', 'w']).closed.append closed_nil.parens

theorem closed_of_isRelativeTime (h : isRelativeTime s) : Closed s.toList :=
  closed_of_trimmed (closed_of_isRelative h)

end Recognized

/-! ## Points of time -/

section Times

variable {cs rest : List Char}

/-- The reader takes only inert characters off the front of a text. -/
def TakesInert {α : Type} (read : List Char → Option (α × List Char)) : Prop :=
  ∀ cs a rest, read cs = some (a, rest) → Inert rest → Inert cs

theorem inert_of_expect {c : Char} (hc : c ∉ scannerMarks) (h : expect c cs = some rest)
    (hr : Inert rest) : Inert cs := by
  cases cs with
  | nil => simp [expect] at h
  | cons d cs =>
    simp only [expect] at h
    split at h
    · rename_i hd
      obtain rfl := Option.some.inj h
      exact hr.cons (hd ▸ hc)
    · simp at h

theorem takesInert_fixedNumber (width : Nat) : TakesInert (fixedNumber width) := by
  intro cs a rest h hr
  unfold fixedNumber at h
  dsimp only at h
  split at h
  · rename_i hw
    obtain ⟨-, rfl⟩ : _ ∧ cs.drop width = rest := by simpa using h
    rw [← List.take_append_drop width cs]
    exact (unmarked_isDigit.inert (by simpa using hw.2)).append hr
  · simp at h

theorem takesInert_shortNumber (width : Nat) : TakesInert (shortNumber width) := by
  intro cs a rest h hr
  unfold shortNumber at h
  dsimp only at h
  split at h
  · simp at h
  · obtain ⟨-, rfl⟩ := Prod.mk.inj (Option.some.inj h)
    have hpre : (cs.take width).takeWhile Char.isDigit <+: cs :=
      (List.takeWhile_prefix _).trans (List.take_prefix _ _)
    rw [← List.prefix_iff_eq_append.mp hpre]
    refine (unmarked_isDigit.inert fun c hc => ?_).append hr
    exact List.mem_takeWhile_imp hc

theorem takesInert_looseNumber (width : Nat) : TakesInert (looseNumber width) :=
  fun cs a rest h hr =>
  inert_of_trimLeft (takesInert_shortNumber width (trimLeft cs) a rest h hr)

theorem takesInert_fraction : TakesInert fraction := by
  intro cs a rest h hr
  unfold fraction at h
  split at h
  · rename_i cs
    dsimp only at h
    split at h
    · simp at h
    · obtain ⟨-, rfl⟩ := Prod.mk.inj (Option.some.inj h)
      have hpre := List.takeWhile_prefix (l := cs) Char.isDigit
      refine Inert.cons (by decide) ?_
      rw [← List.prefix_iff_eq_append.mp hpre]
      refine (unmarked_isDigit.inert fun c hc => ?_).append hr
      exact List.mem_takeWhile_imp hc
  · obtain ⟨-, rfl⟩ := Prod.mk.inj (Option.some.inj h)
    exact hr

theorem takesInert_zone : TakesInert zone := by
  intro cs a rest h hr
  unfold zone at h
  split at h
  · obtain ⟨-, rfl⟩ := Prod.mk.inj (Option.some.inj h)
    exact hr.cons (by decide)
  · obtain ⟨-, rfl⟩ := Prod.mk.inj (Option.some.inj h)
    exact hr.cons (by decide)
  · rename_i sign cs _ _
    -- hours and minutes follow in the same way behind a plus and behind either kind of minus
    have tail : ∀ {hours minutes : Nat} {c1 c2 c3 : List Char},
        fixedNumber 2 cs = some (hours, c1) →
        expect ':' c1 = some c2 → fixedNumber 2 c2 = some (minutes, c3) → Inert c3 → Inert cs := by
      intro hours minutes c1 c2 c3 h1 h2 h3 h4
      have hc2 := takesInert_fixedNumber 2 c2 minutes c3 h3 h4
      exact takesInert_fixedNumber 2 cs hours c1 h1 (inert_of_expect (by decide) h2 hc2)
    simp only [Option.bind_eq_bind] at h
    split_ifs at h with hp hm
    · simp only [Option.bind_some, Option.bind_eq_some_iff] at h
      obtain ⟨⟨hours, c1⟩, h1, c2, h2, ⟨minutes, c3⟩, h3, h⟩ := h
      obtain ⟨-, rfl⟩ := Prod.mk.inj (Option.some.inj (Option.ite_none_right_eq_some.mp h).2)
      subst hp
      exact (tail h1 h2 h3 hr).cons (by decide)
    · simp only [Option.bind_some, Option.bind_eq_some_iff] at h
      obtain ⟨⟨hours, c1⟩, h1, c2, h2, ⟨minutes, c3⟩, h3, h⟩ := h
      obtain ⟨-, rfl⟩ := Prod.mk.inj (Option.some.inj (Option.ite_none_right_eq_some.mp h).2)
      refine (tail h1 h2 h3 hr).cons ?_
      rcases hm with rfl | rfl <;> decide
    · simp at h
  · simp at h

theorem inert_of_stampGap (h : stampGap cs = some rest) (hr : Inert rest) : Inert cs := by
  cases cs with
  | nil => simp [stampGap] at h
  | cons c cs =>
    simp only [stampGap] at h
    split at h
    · rename_i hc
      obtain rfl := Option.some.inj h
      rcases hc with rfl | rfl | rfl <;> exact hr.cons (by decide)
    · simp at h

theorem inert_of_stamp? {t : Instant} (h : stamp? cs = some t) : Inert cs := by
  obtain ⟨⟨year, c1⟩, h1, h⟩ := Option.bind_eq_some_iff.mp h
  obtain ⟨c2, h2, h⟩ := Option.bind_eq_some_iff.mp h
  obtain ⟨⟨month, c3⟩, h3, h⟩ := Option.bind_eq_some_iff.mp h
  obtain ⟨c4, h4, h⟩ := Option.bind_eq_some_iff.mp h
  obtain ⟨⟨day, c5⟩, h5, h⟩ := Option.bind_eq_some_iff.mp h
  obtain ⟨c6, h6, h⟩ := Option.bind_eq_some_iff.mp h
  obtain ⟨⟨hour, c7⟩, h7, h⟩ := Option.bind_eq_some_iff.mp h
  obtain ⟨c8, h8, h⟩ := Option.bind_eq_some_iff.mp h
  obtain ⟨⟨minute, c9⟩, h9, h⟩ := Option.bind_eq_some_iff.mp h
  obtain ⟨c10, h10, h⟩ := Option.bind_eq_some_iff.mp h
  obtain ⟨⟨second, c11⟩, h11, h⟩ := Option.bind_eq_some_iff.mp h
  obtain ⟨⟨nano, c12⟩, h12, h⟩ := Option.bind_eq_some_iff.mp h
  obtain ⟨⟨offset, c13⟩, h13, h⟩ := Option.bind_eq_some_iff.mp h
  have hend : c13 = [] := by simpa using (Option.ite_none_right_eq_some.mp h).1.1
  subst hend
  -- the parts from the last to the first
  have i12 := takesInert_zone _ _ _ h13 inert_nil
  have i11 := takesInert_fraction _ _ _ h12 i12
  have i9 := inert_of_expect (by decide) h10 (takesInert_fixedNumber 2 _ _ _ h11 i11)
  have i7 := inert_of_expect (by decide) h8 (takesInert_fixedNumber 2 _ _ _ h9 i9)
  have i5 := inert_of_stampGap h6 (takesInert_fixedNumber 2 _ _ _ h7 i7)
  have i3 := inert_of_expect (by decide) h4 (takesInert_fixedNumber 2 _ _ _ h5 i5)
  have i1 := inert_of_expect (by decide) h2 (takesInert_fixedNumber 2 _ _ _ h3 i3)
  exact takesInert_fixedNumber 4 _ _ _ h1 i1

theorem takesInert_looseYear : TakesInert looseYear := by
  intro cs a rest h hr
  unfold looseYear at h
  refine inert_of_trimLeft ?_
  split at h
  · rename_i ds hds
    obtain ⟨⟨n, more⟩, hn, h⟩ := Option.map_eq_some_iff.mp h
    obtain ⟨-, rfl⟩ := Prod.mk.inj h
    rw [hds]
    exact (takesInert_shortNumber _ _ _ _ hn hr).cons (by decide)
  · rename_i ds hds
    obtain ⟨⟨n, more⟩, hn, h⟩ := Option.map_eq_some_iff.mp h
    obtain ⟨-, rfl⟩ := Prod.mk.inj h
    rw [hds]
    exact (takesInert_shortNumber _ _ _ _ hn hr).cons (by decide)
  · obtain ⟨⟨n, more⟩, hn, h⟩ := Option.map_eq_some_iff.mp h
    obtain ⟨-, rfl⟩ := Prod.mk.inj h
    exact takesInert_shortNumber _ _ _ _ hn hr

theorem takesInert_looseDate : TakesInert looseDate := by
  intro cs a rest h hr
  simp only [looseDate, Option.bind_eq_bind, Option.bind_eq_some_iff] at h
  obtain ⟨⟨year, c1⟩, h1, c2, h2, ⟨month, c3⟩, h3, c4, h4, ⟨day, c5⟩, h5, h⟩ := h
  obtain ⟨-, rfl⟩ := Prod.mk.inj (Option.some.inj (Option.ite_none_right_eq_some.mp h).2)
  have i3 := inert_of_expect (by decide) h4 (takesInert_looseNumber 2 _ _ _ h5 hr)
  have i1 := inert_of_expect (by decide) h2 (takesInert_looseNumber 2 _ _ _ h3 i3)
  exact takesInert_looseYear _ _ _ h1 i1

theorem inert_of_looseClock? {c : Clock} (h : looseClock? cs = some c) : Inert cs := by
  simp only [looseClock?, Option.bind_eq_bind, Option.bind_eq_some_iff] at h
  obtain ⟨⟨hour, c1⟩, h1, c2, h2, ⟨minute, c3⟩, h3, c4, h4, ⟨second, c5⟩, h5, ⟨nano, c6⟩, h6,
    h⟩ := h
  have hend : c6 = [] := by simpa using (Option.ite_none_right_eq_some.mp h).1.1
  subst hend
  have i5 := takesInert_fraction _ _ _ h6 inert_nil
  have i3 := inert_of_expect (by decide) h4 (takesInert_looseNumber 2 _ _ _ h5 i5)
  have i1 := inert_of_expect (by decide) h2 (takesInert_looseNumber 2 _ _ _ h3 i3)
  exact takesInert_looseNumber 2 _ _ _ h1 i1

theorem inert_of_localTime? {t : Instant} (h : localTime? cs = some t) : Inert cs := by
  simp only [localTime?, Option.bind_eq_bind, Option.bind_eq_some_iff] at h
  obtain ⟨⟨date, c1⟩, h1, c2, h2, clock, h3, -⟩ := h
  exact takesInert_looseDate _ _ _ h1 (inert_of_expect (by decide) h2 (inert_of_looseClock? h3))

theorem inert_of_spacedTime? {t : Instant} (h : spacedTime? cs = some t) : Inert cs := by
  simp only [spacedTime?, Option.bind_eq_bind, Option.bind_eq_some_iff] at h
  obtain ⟨⟨date, c1⟩, h1, clock, h2, -⟩ := h
  exact takesInert_looseDate _ _ _ h1 (inert_of_trimLeft (inert_of_looseClock? h2))

theorem inert_of_date? {d : Date} (h : date? cs = some d) : Inert cs := by
  simp only [date?, Option.bind_eq_bind, Option.bind_eq_some_iff] at h
  obtain ⟨⟨date, c1⟩, h1, h⟩ := h
  have hend : c1 = [] := by simpa using (Option.ite_none_right_eq_some.mp h).1
  subst hend
  exact takesInert_looseDate _ _ _ h1 inert_nil

/-- What is accepted as a point of time holds no quote, bracket, slash or bar. -/
theorem inert_of_isDateTime (h : isDateTime cs) : Inert cs := by
  simp only [isDateTime, Bool.or_eq_true, Option.isSome_iff_exists] at h
  rcases h with ((⟨t, h⟩ | ⟨t, h⟩) | ⟨t, h⟩) | ⟨d, h⟩
  · exact inert_of_stamp? h
  · exact inert_of_localTime? h
  · exact inert_of_spacedTime? h
  · exact inert_of_date? h

end Times

end Kusto.Kql
