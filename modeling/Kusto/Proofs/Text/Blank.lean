import Kusto.Text.Blank
import Kusto.Text.DecimalDigit
import Mathlib.Data.List.DropRight
import Mathlib.Data.List.TakeWhile

/-!
# Trimming — a text and the blanks around it

A text is what trimming leaves of it with blanks at both ends (`exists_blanks`), and what is left
has none there, which nothing else that is so found in the text can be (`trimmed_eq_iff`).  So
trimming once is enough (`trimmed_trimmed`).  No blank is a digit.
-/

namespace Kusto.Text

section Trimming

variable {cs : List Char}

/-- Trimming takes blanks off both ends. -/
theorem exists_blanks (cs : List Char) :
    ∃ u v, cs = u ++ trimmed cs ++ v ∧ (∀ c ∈ u, isBlank c) ∧ ∀ c ∈ v, isBlank c := by
  have hright := List.takeWhile_append_dropWhile (p := isBlank) (l := (trimLeft cs).reverse)
  have hleft := List.takeWhile_append_dropWhile (p := isBlank) (l := cs)
  refine ⟨cs.takeWhile isBlank, ((trimLeft cs).reverse.takeWhile isBlank).reverse, ?_, ?_, ?_⟩
  · rw [List.append_assoc, trimmed, trimLeft, ← List.reverse_append, hright, List.reverse_reverse]
    exact hleft.symm
  · exact fun c hc => List.mem_takeWhile_imp hc
  · exact fun c hc => List.mem_takeWhile_imp (List.mem_reverse.mp hc)

theorem trimmed_subset (cs : List Char) : trimmed cs ⊆ cs := by
  obtain ⟨u, v, hcs, -, -⟩ := exists_blanks cs
  intro c hc
  rw [hcs]
  exact List.mem_append_left _ (List.mem_append_right _ hc)

/-- Trimming leaves no blank in front. -/
theorem trimLeft_eq_self (h : ∀ c, cs.head? = some c → isBlank c = false) : trimLeft cs = cs := by
  cases cs with
  | nil => rfl
  | cons c cs => exact List.dropWhile_cons_of_neg (by simp [h c rfl])

theorem head_trimLeft {c : Char} (h : (trimLeft cs).head? = some c) : isBlank c = false := by
  have hhead := List.head?_dropWhile_not isBlank cs
  unfold trimLeft at h
  rw [h] at hhead
  simpa using hhead

/-- Neither the first character nor the last one is a blank. -/
def IsTrimmed (cs : List Char) : Prop :=
  (∀ c, cs.head? = some c → isBlank c = false) ∧ ∀ c, cs.getLast? = some c → isBlank c = false

theorem isTrimmed_trimmed (cs : List Char) : IsTrimmed (trimmed cs) := by
  constructor
  · -- what is left is a part of the text trimmed in front, and begins as that does
    intro c hc
    obtain ⟨rest, hrest⟩ : trimmed cs <+: trimLeft cs := by
      have hsuffix := List.dropWhile_suffix isBlank (l := (trimLeft cs).reverse)
      exact List.reverse_suffix.mp (by rwa [trimmed, List.reverse_reverse])
    have hfront : (trimLeft cs).head? = some c := by
      rw [← hrest, List.head?_append, hc, Option.some_or]
    exact head_trimLeft hfront
  · intro c hc
    rw [trimmed, List.getLast?_reverse] at hc
    exact head_trimLeft hc

/-- Blanks around a text that has none at its ends are all that trimming takes. -/
theorem trimmed_blanks {u v : List Char} (h : IsTrimmed cs) (hu : ∀ c ∈ u, isBlank c)
    (hv : ∀ c ∈ v, isBlank c) : trimmed (u ++ cs ++ v) = cs := by
  have hfront : trimLeft (u ++ cs ++ v) = trimLeft (cs ++ v) := by
    rw [List.append_assoc]
    exact List.dropWhile_append_of_pos hu
  have hback : trimLeft (v.reverse ++ cs.reverse) = trimLeft cs.reverse :=
    List.dropWhile_append_of_pos fun c hc => hv c (List.mem_reverse.mp hc)
  rw [trimmed, hfront]
  -- where nothing is left, the blanks behind have gone with those in front
  cases cs with
  | nil =>
    have hall : trimLeft v = [] := List.dropWhile_eq_nil_iff.mpr hv
    rw [List.nil_append, hall]
    rfl
  | cons c cs =>
    have hhead : trimLeft (c :: cs ++ v) = c :: cs ++ v := trimLeft_eq_self fun d hd => h.1 d hd
    have hlast : trimLeft (c :: cs).reverse = (c :: cs).reverse :=
      trimLeft_eq_self fun d hd => h.2 d (by rwa [List.head?_reverse] at hd)
    rw [hhead, List.reverse_append, hback, hlast, List.reverse_reverse]

/-- **What trimming leaves** is the text between the blanks, and nothing else is. -/
theorem trimmed_eq_iff {ds : List Char} : trimmed cs = ds ↔ IsTrimmed ds ∧
    ∃ u v, cs = u ++ ds ++ v ∧ (∀ c ∈ u, isBlank c) ∧ ∀ c ∈ v, isBlank c := by
  constructor
  · rintro rfl
    exact ⟨isTrimmed_trimmed cs, exists_blanks cs⟩
  · rintro ⟨h, u, v, rfl, hu, hv⟩
    exact trimmed_blanks h hu hv

/-- Trimming once is enough. -/
theorem trimmed_trimmed (cs : List Char) : trimmed (trimmed cs) = trimmed cs :=
  trimmed_eq_iff.mpr ⟨isTrimmed_trimmed cs, [], [], by simp, by simp, by simp⟩

/-- Nothing is left of a text of blanks, and of no other. -/
theorem trimmed_eq_nil_iff : trimmed cs = [] ↔ ∀ c ∈ cs, isBlank c := by
  rw [trimmed_eq_iff]
  constructor
  · rintro ⟨-, u, v, rfl, hu, hv⟩ c hc
    rw [List.append_nil] at hc
    exact (List.mem_append.mp hc).elim (hu c) (hv c)
  · intro h
    exact ⟨⟨by simp, by simp⟩, cs, [], by simp, h, by simp⟩

theorem toList_trim (s : String) : (trim s).toList = trimmed s.toList := String.toList_ofList

end Trimming

/-! ## Sets of code points without a common member -/

section Disjoint

/-- Each range of the one set lies before or behind each range of the other. -/
def CodePoints.isDisjoint (a b : CodePoints) : Bool :=
  a.all fun r => b.all fun s => r.2 < s.1 || s.2 < r.1

theorem CodePoints.not_holds_of_isDisjoint {a b : CodePoints} (h : a.isDisjoint b) {c : Char}
    (ha : a.holds c) : b.holds c = false := by
  simp only [holds, isDisjoint, List.any_eq_true, List.all_eq_true, Bool.and_eq_true,
    Bool.or_eq_true, decide_eq_true_eq, List.any_eq_false] at h ha ⊢
  obtain ⟨r, hr, hlow, hhigh⟩ := ha
  intro s hs
  have := h r hr s hs
  omega

theorem not_isDecimalDigit_of_isBlank {c : Char} (h : isBlank c) : isDecimalDigit c = false :=
  CodePoints.not_holds_of_isDisjoint (a := whiteSpace) (by decide) h

end Disjoint

end Kusto.Text
