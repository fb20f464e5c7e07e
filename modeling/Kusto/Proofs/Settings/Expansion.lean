import Kusto.Settings.Environment
import Mathlib.Data.List.TakeWhile

/-!
# Expansion — what becomes of the references in a text

The references in a text are found from left to right, each where the one before has ended, and
there is one way only to find them (`splits_iff`).  Either all of them are replaced by their values,
or the first variable that is not set is reported (`expand_exact`).
-/

namespace Kusto.Settings

open Kql (isWord isWordStart isWordChar)

/-! ## Splitting -/

/-- A reference to some variable stands at the front. -/
def BeginsReference (cs : List Char) : Prop :=
  ∃ name rest, isWord name ∧ cs = (Segment.reference name).chars ++ rest

/-- The text is cut from left to right: a reference is taken where one begins, and a character
where none does. -/
inductive Splits : List Char → List Segment → Prop
  | nil : Splits [] []
  | char {c : Char} {cs : List Char} {segs : List Segment} (hnone : ¬ BeginsReference (c :: cs))
    (hrest : Splits cs segs) : Splits (c :: cs) (.char c :: segs)
  | reference {name rest : List Char} {segs : List Segment} (hname : isWord name)
    (hrest : Splits rest segs) :
    Splits ((Segment.reference name).chars ++ rest) (.reference name :: segs)

section Words

variable {name name' rest rest' cs : List Char} {c : Char}

theorem isWordChar_of_isWordStart (h : isWordStart c) : isWordChar c := by
  simp only [isWordStart, isWordChar, Char.isAlphanum, Bool.or_eq_true] at h ⊢
  exact h.imp .inl id

theorem isWordChar_of_mem (h : isWord name) : ∀ d ∈ name, isWordChar d := by
  cases name with
  | nil => exact fun d hd => absurd hd List.not_mem_nil
  | cons c cs =>
    simp only [isWord, Bool.and_eq_true, List.all_eq_true] at h
    exact List.forall_mem_cons.mpr ⟨isWordChar_of_isWordStart h.1, h.2⟩

/-- A character of a word goes on with it. -/
theorem isWord_concat (h : isWord name) (hc : isWordChar c) : isWord (name ++ [c]) := by
  cases name with
  | nil => exact absurd h (by decide)
  | cons d ds =>
    simp only [isWord, Bool.and_eq_true, List.all_eq_true] at h
    simp only [List.cons_append, isWord, Bool.and_eq_true, List.all_append, List.all_eq_true]
    exact ⟨h.1, h.2, List.forall_mem_singleton.mpr hc⟩

/-- A word ends where a character stands that is none of a word. -/
theorem takeWhile_word (h : ∀ d ∈ name, isWordChar d) (hc : ¬ isWordChar c) (rest : List Char) :
    (name ++ c :: rest).takeWhile isWordChar = name := by
  rw [List.takeWhile_append_of_pos h, List.takeWhile_cons_of_neg hc, List.append_nil]

/-- The brace that ends a reference shows where its name ends. -/
theorem reference_injective (hname : isWord name) (hname' : isWord name')
    (h : (Segment.reference name).chars ++ rest = (Segment.reference name').chars ++ rest') :
    name = name' ∧ rest = rest' := by
  have hbrace : ¬ isWordChar '\x7d' := by decide
  simp only [Segment.chars, List.cons_append, List.append_assoc, List.nil_append, List.cons.injEq,
    true_and] at h
  have heq : name = name' := by
    rw [← takeWhile_word (isWordChar_of_mem hname) hbrace rest, h,
      takeWhile_word (isWordChar_of_mem hname') hbrace]
  subst heq
  exact ⟨rfl, (List.cons.inj (List.append_cancel_left h)).2⟩

/-- A name does not end with a brace if it goes on with a character that is neither a brace nor one
of a word. -/
theorem not_closed_of_head (h : ∀ d ∈ name, isWordChar d)
    (hcs : ∀ c ∈ cs.head?, c ≠ '\x7d' ∧ ¬ isWordChar c) (hname' : isWord name') :
    name ++ cs ≠ name' ++ '\x7d' :: rest := by
  have hbrace : ¬ isWordChar '\x7d' := by decide
  intro heq
  cases cs with
  | nil =>
    rw [List.append_nil] at heq
    exact hbrace (h '\x7d' (by rw [heq]; simp))
  | cons c cs =>
    obtain ⟨hclose, hword⟩ := hcs c rfl
    have hsame : name = name' := by
      rw [← takeWhile_word h hword cs, heq, takeWhile_word (isWordChar_of_mem hname') hbrace]
    rw [hsame] at heq
    exact hclose (List.cons.inj (List.append_cancel_left heq)).1

theorem not_beginsReference_of_ne (h : c ≠ '$') : ¬ BeginsReference (c :: cs) := by
  rintro ⟨name, rest, -, heq⟩
  exact h (List.cons.inj heq).1

/-- There is one way only to split a text. -/
theorem Splits.unique {segs segs' : List Segment} (h : Splits cs segs) (h' : Splits cs segs') :
    segs = segs' := by
  induction h generalizing segs' with
  | nil =>
    cases h' with
    | nil => rfl
  | @char c cs segs hnone _ ih =>
    cases h' with
    | char _ hrest' => rw [ih hrest']
    | reference hname' _ => exact absurd ⟨_, _, hname', rfl⟩ hnone
  | @reference name rest segs hname _ ih =>
    -- both read a reference here, and its name ends at the first closing brace
    generalize htext : (Segment.reference name).chars ++ rest = text at h'
    cases h' with
    | nil => exact absurd htext (by simp [Segment.chars])
    | char hnone' _ => exact absurd ⟨name, rest, hname, htext.symm⟩ hnone'
    | reference hname' hrest' =>
      obtain ⟨rfl, rfl⟩ := reference_injective hname hname' htext
      rw [ih hrest']

end Words

/-! ## Cutting character by character -/

section Cutting

variable {p : Pending} {c : Char} {x cs : List Char} {segs : List Segment}

namespace Pending

/-- What has been read of a name is one. -/
def IsOpen : Pending → Prop
  | brace (c :: name) => isWord (c :: name).reverse
  | _ => True

/-- The character does not go on with the beginning, nor does it end it. -/
def Breaks (c : Char) : Pending → Prop
  | none => True
  | dollar => c ≠ '\x7b'
  | brace [] => ¬ isWordStart c
  | brace _ => c ≠ '\x7d' ∧ ¬ isWordChar c

theorem IsOpen.isWordChar {name : List Char} (h : (brace name).IsOpen) :
    ∀ d ∈ name.reverse, isWordChar d := by
  cases name with
  | nil => exact fun d hd => absurd hd List.not_mem_nil
  | cons c name => exact isWordChar_of_mem h

end Pending

/-- Where a beginning breaks off, no reference begins with it. -/
theorem not_beginsReference_of_breaks (hp : p.IsOpen) (hne : p ≠ .none)
    (hx : ∀ c ∈ x.head?, p.Breaks c) : ¬ BeginsReference (p.chars ++ x) := by
  rintro ⟨name, rest, hname, heq⟩
  simp only [Segment.chars, List.cons_append, List.append_assoc, List.nil_append] at heq
  cases p with
  | none => exact hne rfl
  | dollar =>
    have htail : x = '\x7b' :: (name ++ '\x7d' :: rest) := (List.cons.inj heq).2
    exact hx '\x7b' (by rw [htail]; rfl) rfl
  | brace read =>
    have htail : read.reverse ++ x = name ++ '\x7d' :: rest :=
      (List.cons.inj (List.cons.inj heq).2).2
    cases read with
    | nil =>
      -- a digit breaks off here, so it is the beginning of the name that decides
      cases name with
      | nil => exact absurd hname (by decide)
      | cons d ds =>
        have hx' : x = d :: (ds ++ '\x7d' :: rest) := htail
        simp only [isWord, Bool.and_eq_true] at hname
        exact hx d (by rw [hx']; rfl) hname.1
    | cons d ds => exact not_closed_of_head hp.isWordChar hx hname htail

/-- Characters other than a dollar sign stand for themselves. -/
theorem splits_map_char {w : List Char} (hw : '$' ∉ w) (hx : Splits x segs) :
    Splits (w ++ x) (w.map Segment.char ++ segs) := by
  induction w with
  | nil => exact hx
  | cons c w ih =>
    simp only [List.mem_cons, not_or] at hw
    exact .char (not_beginsReference_of_ne (Ne.symm hw.1)) (ih hw.2)

/-- A beginning that breaks off leaves its characters. -/
theorem splits_broken (hp : p.IsOpen) (hx : ∀ c ∈ x.head?, p.Breaks c) (hrest : Splits x segs) :
    Splits (p.chars ++ x) (p.chars.map Segment.char ++ segs) := by
  match p with
  | .none => exact hrest
  | .dollar => exact .char (not_beginsReference_of_breaks hp (by simp) hx) hrest
  | .brace name =>
    have hname : '$' ∉ '\x7b' :: name.reverse := by
      intro hmem
      rcases List.mem_cons.mp hmem with h | h
      · exact absurd h (by decide)
      · exact absurd (hp.isWordChar _ h) (by decide)
    exact .char (not_beginsReference_of_breaks hp (by simp) hx) (splits_map_char hname hrest)

/-- One more character, if what follows it is cut rightly after every beginning. -/
theorem splits_step (hp : p.IsOpen) (c : Char)
    (hrest : ∀ p : Pending, p.IsOpen → Splits (p.chars ++ cs) (segmentsFrom p cs)) :
    Splits (p.chars ++ c :: cs) ((p.step c).1 ++ segmentsFrom (p.step c).2 cs) := by
  -- what is left after a beginning that breaks off at `c` is cut as if nothing stood before it
  have hstart : Splits (c :: cs) ((Pending.start c).1 ++ segmentsFrom (Pending.start c).2 cs) := by
    unfold Pending.start
    split_ifs with h
    · rw [h]
      exact hrest .dollar trivial
    · exact .char (not_beginsReference_of_ne h) (hrest .none trivial)
  have hplain (hbreaks : p.Breaks c) : Splits (p.chars ++ c :: cs)
      (p.chars.map Segment.char ++ (Pending.start c).1 ++ segmentsFrom (Pending.start c).2 cs) := by
    rw [List.append_assoc]
    refine splits_broken hp (fun d hd => ?_) hstart
    rwa [← Option.some.inj (Option.mem_def.mp hd)]
  match p with
  | .none => exact hstart
  | .dollar =>
    by_cases h : c = '\x7b'
    · simpa [Pending.step, h, Pending.chars] using hrest (.brace []) trivial
    · simpa [Pending.step, h] using hplain h
  | .brace [] =>
    by_cases h : isWordStart c
    · have hopen : (Pending.brace [c]).IsOpen := by simp [Pending.IsOpen, isWord, h]
      simpa [Pending.step, h, Pending.chars] using hrest (.brace [c]) hopen
    · simpa [Pending.step, h] using hplain h
  | .brace (d :: name) =>
    by_cases h : c = '\x7d'
    · have hname : isWord (d :: name).reverse := hp
      have href := Splits.reference hname (hrest .none trivial)
      simpa [Pending.step, h, Pending.chars, Segment.chars] using href
    · by_cases h' : isWordChar c
      · have hopen : (Pending.brace (c :: d :: name)).IsOpen := by
          show isWord (c :: d :: name).reverse
          rw [List.reverse_cons]
          exact isWord_concat hp h'
        simpa [Pending.step, h, h', Pending.chars] using hrest _ hopen
      · simpa [Pending.step, h, h'] using hplain ⟨h, h'⟩

theorem splits_segmentsFrom (hp : p.IsOpen) (cs : List Char) :
    Splits (p.chars ++ cs) (segmentsFrom p cs) := by
  induction cs generalizing p with
  | nil =>
    have hend := splits_broken hp (fun c hc => absurd hc (by simp)) .nil
    simpa [segmentsFrom] using hend
  | cons c cs ih => exact splits_step hp c fun p hp => ih hp

/-- **The references of a text** are found from left to right, and in one way only. -/
theorem splits_iff : Splits cs segs ↔ segs = segments cs := by
  have hsegments : Splits cs (segments cs) := splits_segmentsFrom (p := .none) trivial cs
  constructor
  · exact fun h => h.unique hsegments
  · rintro rfl
    exact hsegments

end Cutting

/-! ## Replacing -/

section Replacing

variable (env : Environment)

/-- The variable that a segment refers to. -/
def Segment.name? : Segment → Option String
  | char _ => none
  | reference name => some (String.ofList name)

/-- A reference makes room for the value of its variable. -/
def Segment.replaced : Segment → List Char
  | char c => [c]
  | reference name => ((env (String.ofList name)).getD "").toList

/-- The first variable of a split text that is not set. -/
def firstUnset? (segs : List Segment) : Option String :=
  (segs.filterMap Segment.name?).find? fun name => (env name).isNone

/-- All references are replaced, unless a variable is not set; then the first of these is told. -/
theorem substitute_eq (segs : List Segment) : substitute env segs =
    match firstUnset? env segs with
    | none => .ok (segs.flatMap (Segment.replaced env))
    | some name => .error name := by
  induction segs with
  | nil => rfl
  | cons seg segs ih =>
    cases seg with
    | char c =>
      have hfirst : firstUnset? env (.char c :: segs) = firstUnset? env segs := rfl
      rw [substitute, ih, hfirst]
      cases firstUnset? env segs <;> rfl
    | reference name =>
      cases hname : env (String.ofList name) with
      | none =>
        have hfirst : firstUnset? env (.reference name :: segs) = some (String.ofList name) :=
          List.find?_cons_of_pos (by simp [hname])
        rw [substitute, hname, hfirst]
      | some v =>
        have hfirst : firstUnset? env (.reference name :: segs) = firstUnset? env segs :=
          List.find?_cons_of_neg (by simp [hname])
        rw [substitute, hname, ih, hfirst, List.flatMap_cons, Segment.replaced, hname]
        cases firstUnset? env segs <;> rfl

/-- **Expansion is one substitution from left to right, all or nothing.**  There is one way to split
the text at its references; they are replaced by the values of their variables and nothing else is,
or the first variable in the text that is not set is told. -/
theorem expand_exact (s : String) : ∃ segs, (∀ segs', Splits s.toList segs' ↔ segs' = segs) ∧
    expand env s =
      match firstUnset? env segs with
      | none => .ok (String.ofList (segs.flatMap (Segment.replaced env)))
      | some name => .error name := by
  refine ⟨segments s.toList, fun _ => splits_iff, ?_⟩
  rw [expand, substitute_eq]
  cases firstUnset? env (segments s.toList) <;> rfl

/-- What looks like a reference around another one is none, and a value is not looked into. -/
example : expand (fun name => if name = "B" then some "${A}" else none) "${A${B}}${}" =
    .ok "${A${A}}${}" := by decide

end Replacing

end Kusto.Settings
