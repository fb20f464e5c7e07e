import Kusto.Proofs.Kql.Literal

/-!
# Timespans — the texts that are recognized as lengths of time

`IsSpan digit cs`: digits of a class, optionally a point and more of them, then a unit.  What is
recognized as a timespan is this with the decimal digits of every script (`isTimespan_iff`), and
it is one of the query language, whose digits are those of ASCII, exactly if it has no other digits
(`isSpan_ascii_iff`).  The same holds of the times relative to now.
-/

open Kusto.Text (isBlank isDecimalDigit trimmed exists_blanks not_isDecimalDigit_of_isBlank)

namespace Kusto.Kql

/-- Digits, optionally a point and more digits, then a unit. -/
inductive IsSpan (digit : Char → Bool) : List Char → Prop
  | whole {ds : List Char} {u : String} (hne : ds ≠ []) (hds : ∀ c ∈ ds, digit c)
    (hu : u ∈ timespanUnits) : IsSpan digit (ds ++ u.toList)
  | fraction {ds fs : List Char} {u : String} (hne : ds ≠ []) (hds : ∀ c ∈ ds, digit c)
    (hne' : fs ≠ []) (hfs : ∀ c ∈ fs, digit c) (hu : u ∈ timespanUnits) :
    IsSpan digit (ds ++ '.' :: (fs ++ u.toList))

/-- `now()`, or `ago` of a timespan. Like a timespan that stands alone, the one between the
parentheses may have blanks around it. -/
inductive IsRelativeCall (digit : Char → Bool) : List Char → Prop
  | now : IsRelativeCall digit "now()".toList
  | ago {x : List Char} (h : IsSpan digit (trimmed x)) :
    IsRelativeCall digit ("ago(".toList ++ x ++ [')'])

/-- A decimal digit of another script than ASCII is among the characters. -/
def HasForeignDigit (cs : List Char) : Prop := ∃ c ∈ cs, isDecimalDigit c ∧ ¬ c.isDigit

/-! ## What is recognized -/

section Recognized

variable {cs : List Char}

theorem isTimespanUnit_iff : isTimespanUnit cs ↔ ∃ u ∈ timespanUnits, u.toList = cs := by
  simp [isTimespanUnit]

theorem not_digit_of_all {w : List Char} (h : w.all (!isDecimalDigit ·)) :
    ∀ c ∈ w, isDecimalDigit c = false := by
  simpa using h

theorem not_digit_of_mem_unit {u : String} (hu : u ∈ timespanUnits) :
    ∀ c ∈ u.toList, isDecimalDigit c = false := by
  have hunits : timespanUnits.all (·.toList.all (!isDecimalDigit ·)) := by decide
  exact not_digit_of_all (List.all_eq_true.mp hunits u hu)

/-- Digits in front are taken as far as they go. -/
theorem takeWhile_digits {ds rest : List Char} (hds : ∀ c ∈ ds, isDecimalDigit c)
    (hrest : rest.takeWhile isDecimalDigit = []) :
    (ds ++ rest).takeWhile isDecimalDigit = ds := by
  rw [List.takeWhile_append_of_pos hds, hrest, List.append_nil]

theorem dropWhile_digits {ds rest : List Char} (hds : ∀ c ∈ ds, isDecimalDigit c)
    (hrest : rest.takeWhile isDecimalDigit = []) :
    (ds ++ rest).dropWhile isDecimalDigit = rest := by
  have hsplit := List.takeWhile_append_dropWhile (p := isDecimalDigit) (l := rest)
  rw [hrest, List.nil_append] at hsplit
  rw [List.dropWhile_append_of_pos hds, hsplit]

theorem takeWhile_unit {u : String} (hu : u ∈ timespanUnits) :
    u.toList.takeWhile isDecimalDigit = [] :=
  (by decide : ∀ u ∈ timespanUnits, u.toList.takeWhile isDecimalDigit = []) u hu

theorem isSpan_of_isTimespan (h : isTimespan cs) : IsSpan isDecimalDigit cs := by
  have hall : ∀ ds : List Char, ∀ c ∈ ds.takeWhile isDecimalDigit, isDecimalDigit c :=
    fun ds c hc => List.mem_takeWhile_imp hc
  unfold isTimespan at h
  simp only [Bool.and_eq_true, Bool.not_eq_true', List.isEmpty_eq_false_iff] at h
  obtain ⟨hne, h⟩ := h
  rw [← List.takeWhile_append_dropWhile (p := isDecimalDigit) (l := cs)]
  split at h
  · rename_i more hmore
    simp only [Bool.and_eq_true, Bool.not_eq_true', List.isEmpty_eq_false_iff] at h
    obtain ⟨hne', hunit⟩ := h
    obtain ⟨u, hu, hrest⟩ := isTimespanUnit_iff.mp hunit
    rw [hmore, ← List.takeWhile_append_dropWhile (p := isDecimalDigit) (l := more), ← hrest]
    exact .fraction hne (hall cs) hne' (hall more) hu
  · obtain ⟨u, hu, hrest⟩ := isTimespanUnit_iff.mp h
    rw [← hrest]
    exact .whole hne (hall cs) hu

theorem isTimespan_of_isSpan (h : IsSpan isDecimalDigit cs) : isTimespan cs := by
  cases h with
  | @whole ds u hne hds hu =>
    have hunit := takeWhile_unit hu
    unfold isTimespan
    rw [takeWhile_digits hds hunit, dropWhile_digits hds hunit]
    simp only [Bool.and_eq_true, Bool.not_eq_true', List.isEmpty_eq_false_iff]
    refine ⟨hne, ?_⟩
    split
    · rename_i more hmore
      have hhead : u.toList.head? ≠ some '.' :=
        (by decide : ∀ u ∈ timespanUnits, u.toList.head? ≠ some '.') u hu
      exact absurd (by rw [hmore, List.head?_cons]) hhead
    · exact isTimespanUnit_iff.mpr ⟨u, hu, rfl⟩
  | @fraction ds fs u hne hds hne' hfs hu =>
    have hpoint : ('.' :: (fs ++ u.toList)).takeWhile isDecimalDigit = [] :=
      List.takeWhile_cons_of_neg (by decide)
    have hunit := takeWhile_unit hu
    unfold isTimespan
    rw [takeWhile_digits hds hpoint, dropWhile_digits hds hpoint]
    show (!ds.isEmpty && (!((fs ++ u.toList).takeWhile isDecimalDigit).isEmpty &&
      isTimespanUnit ((fs ++ u.toList).dropWhile isDecimalDigit))) = true
    rw [takeWhile_digits hfs hunit, dropWhile_digits hfs hunit]
    simp only [Bool.and_eq_true, Bool.not_eq_true', List.isEmpty_eq_false_iff]
    exact ⟨hne, hne', isTimespanUnit_iff.mpr ⟨u, hu, rfl⟩⟩

/-- What is recognized as a timespan has digits of any script. -/
theorem isTimespan_iff : isTimespan cs ↔ IsSpan isDecimalDigit cs :=
  ⟨isSpan_of_isTimespan, isTimespan_of_isSpan⟩

/-- What is recognized as a relative time has a timespan of that kind. -/
theorem isRelative_iff : isRelative cs ↔ IsRelativeCall isDecimalDigit cs := by
  constructor
  · intro h
    unfold isRelative at h
    split at h
    · rename_i rest
      split at h
      · rename_i inner hinner
        -- the closing parenthesis is looked for from the end
        have hrest : rest = inner.reverse ++ [')'] := by
          rw [← List.reverse_reverse rest, hinner, List.reverse_cons]
        rw [hrest]
        exact .ago (isTimespan_iff.mp h)
      · exact absurd h (by simp)
    · rw [of_decide_eq_true h]
      exact .now
  · intro h
    cases h with
    | now => decide
    | @ago x hx =>
      have hinner : (x ++ [')']).reverse = ')' :: x.reverse := by simp
      have hcall : isRelative ("ago(".toList ++ x ++ [')']) = isTimespan (trimmed x) := by
        simp only [isRelative, String.reduceToList, List.cons_append, List.nil_append, hinner,
          List.reverse_reverse]
      exact hcall.trans (isTimespan_iff.mpr hx)

end Recognized

/-! ## Digits of other scripts -/

section Foreign

variable {cs : List Char}

theorem isDecimalDigit_of_isDigit {c : Char} (h : c.isDigit) : isDecimalDigit c := by
  have hrange : 48 ≤ c.toNat ∧ c.toNat ≤ 57 := by
    simpa [Char.isDigit, UInt32.le_iff_toNat_le] using h
  refine List.any_eq_true.mpr ⟨(0x0030, 0x0039), List.mem_cons_self, ?_⟩
  simpa using hrange

theorem IsSpan.mono {p q : Char → Bool} (hpq : ∀ c ∈ cs, p c → q c) (h : IsSpan p cs) :
    IsSpan q cs := by
  cases h with
  | whole hne hds hu =>
    exact .whole hne (fun c hc => hpq c (by simp [hc]) (hds c hc)) hu
  | fraction hne hds hne' hfs hu =>
    exact .fraction hne (fun c hc => hpq c (by simp [hc]) (hds c hc)) hne'
      (fun c hc => hpq c (by simp [hc]) (hfs c hc)) hu

/-- The digits of a span are of its class. -/
theorem IsSpan.digit_of_isDecimalDigit {p : Char → Bool} (h : IsSpan p cs) {c : Char}
    (hc : c ∈ cs) (hdigit : isDecimalDigit c) : p c := by
  have hnot : ∀ {u : String}, u ∈ timespanUnits → c ∉ u.toList := fun hu hm =>
    absurd (hdigit.symm.trans (not_digit_of_mem_unit hu c hm)) (by decide)
  cases h with
  | whole hne hds hu =>
    rcases List.mem_append.mp hc with hc | hc
    · exact hds c hc
    · exact absurd hc (hnot hu)
  | fraction hne hds hne' hfs hu =>
    rcases List.mem_append.mp hc with hc | hc
    · exact hds c hc
    · rcases List.mem_cons.mp hc with rfl | hc
      · exact absurd hdigit (by decide)
      · rcases List.mem_append.mp hc with hc | hc
        · exact hfs c hc
        · exact absurd hc (hnot hu)

/-- A timespan of any script is one of ASCII unless it has foreign digits. -/
theorem isSpan_ascii_iff :
    IsSpan Char.isDigit cs ↔ IsSpan isDecimalDigit cs ∧ ¬ HasForeignDigit cs := by
  constructor
  · intro h
    refine ⟨h.mono fun c _ => isDecimalDigit_of_isDigit, ?_⟩
    rintro ⟨c, hc, hdigit, hascii⟩
    exact hascii (h.digit_of_isDecimalDigit hc hdigit)
  · rintro ⟨h, hforeign⟩
    refine h.mono fun c hc hdigit => ?_
    by_contra hascii
    exact hforeign ⟨c, hc, hdigit, hascii⟩

/-- The blanks around a text are no digits. -/
theorem hasForeignDigit_trimmed_iff : HasForeignDigit (trimmed cs) ↔ HasForeignDigit cs := by
  obtain ⟨u, v, hcs, hu, hv⟩ := exists_blanks cs
  have hblank : ∀ {c}, isDecimalDigit c → isBlank c = false := by
    intro c hdigit
    by_contra hblank
    have := not_isDecimalDigit_of_isBlank (by simpa using hblank)
    exact absurd (hdigit.symm.trans this) (by decide)
  constructor
  · rintro ⟨c, hc, h⟩
    exact ⟨c, by rw [hcs]; simp [hc], h⟩
  · rintro ⟨c, hc, hdigit, hascii⟩
    rw [hcs] at hc
    refine ⟨c, ?_, hdigit, hascii⟩
    rcases List.mem_append.mp hc with hc | hc
    · rcases List.mem_append.mp hc with hc | hc
      · exact absurd ((hu c hc).symm.trans (hblank hdigit)) (by decide)
      · exact hc
    · exact absurd ((hv c hc).symm.trans (hblank hdigit)) (by decide)

theorem hasForeignDigit_ago_iff :
    HasForeignDigit ("ago(".toList ++ cs ++ [')']) ↔ HasForeignDigit cs := by
  constructor
  · rintro ⟨c, hc, hdigit, hascii⟩
    have hmarks := not_digit_of_all (by decide : ("ago(".toList ++ [')']).all (!isDecimalDigit ·))
    have hnot : c ∉ "ago(".toList ++ [')'] := fun hm =>
      absurd (hdigit.symm.trans (hmarks c hm)) (by decide)
    refine ⟨c, ?_, hdigit, hascii⟩
    rcases List.mem_append.mp hc with hc | hc
    · rcases List.mem_append.mp hc with hc | hc
      · exact absurd (List.mem_append_left _ hc) hnot
      · exact hc
    · exact absurd (List.mem_append_right _ hc) hnot
  · rintro ⟨c, hc, h⟩
    exact ⟨c, by simp [hc], h⟩

/-- A relative time of any script is one of ASCII unless it has foreign digits. -/
theorem isRelativeCall_ascii_iff :
    IsRelativeCall Char.isDigit cs ↔ IsRelativeCall isDecimalDigit cs ∧ ¬ HasForeignDigit cs := by
  -- blanks are no digits, so it does not matter whether they have been trimmed
  have hspan : ∀ {x}, IsSpan Char.isDigit (trimmed x) ↔
      IsSpan isDecimalDigit (trimmed x) ∧ ¬ HasForeignDigit x := by
    intro x
    rw [isSpan_ascii_iff, hasForeignDigit_trimmed_iff]
  constructor
  · intro h
    cases h with
    | now =>
      refine ⟨.now, ?_⟩
      rintro ⟨c, hc, hdigit, -⟩
      have hmarks := not_digit_of_all (by decide : "now()".toList.all (!isDecimalDigit ·))
      exact absurd (hdigit.symm.trans (hmarks c hc)) (by decide)
    | ago hx =>
      obtain ⟨hdecimal, hforeign⟩ := hspan.mp hx
      exact ⟨.ago hdecimal, hasForeignDigit_ago_iff.not.mpr hforeign⟩
  · rintro ⟨h, hforeign⟩
    cases h with
    | now => exact .now
    | ago hx => exact .ago (hspan.mpr ⟨hx, hasForeignDigit_ago_iff.not.mp hforeign⟩)

end Foreign

end Kusto.Kql
