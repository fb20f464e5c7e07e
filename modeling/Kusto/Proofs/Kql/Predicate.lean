import Kusto.Kql.Expr
import Mathlib.Data.List.TakeWhile

/-!
# Predicates — the tokens of a filter read as alternatives of operands

`read` goes through the tokens once, from left to right.  At the place of an operand a parenthesis
opens a group; inside of an operand it belongs to the operand.  Between operands `and` binds
tighter than `or`: a predicate is a list of alternatives, each of which is a list of operands.
-/

open Kusto.Text (joinWith joinWith_cons)

namespace Kusto.Kql

/-- An operand of a predicate: a comparison, by its tokens, or alternatives in parentheses. -/
inductive Operand where
  | atom (tokens : List Token)
  | group (alternatives : List (List Operand))

/-! ## Truth -/

namespace Operand

mutual

/-- An operand holds under an assignment of truth values to comparisons. -/
def holds (v : List Token → Bool) : Operand → Bool
  | atom ts => v ts
  | group as => someHolds v as
termination_by structural o => o

def someHolds (v : List Token → Bool) : List (List Operand) → Bool
  | [] => false
  | os :: as => allHold v os || someHolds v as
termination_by structural as => as

def allHold (v : List Token → Bool) : List Operand → Bool
  | [] => true
  | o :: os => o.holds v && allHold v os
termination_by structural os => os

end

@[simp] theorem allHold_eq_all (v : List Token → Bool) (os : List Operand) :
    allHold v os = os.all (holds v) := by
  induction os with
  | nil => rfl
  | cons o os ih => rw [allHold, ih, List.all_cons]

@[simp] theorem someHolds_eq_any (v : List Token → Bool) (as : List (List Operand)) :
    someHolds v as = as.any (·.all (holds v)) := by
  induction as with
  | nil => rfl
  | cons os as ih => rw [someHolds, ih, List.any_cons, allHold_eq_all]

end Operand

/-! ## The reader -/

/-- What has been read inside of one pair of parentheses: the alternatives before the last `or`,
and the operands after it. -/
structure Level where
  alternatives : List (List Operand) := []
  operands : List Operand := []

/-- The alternatives, where `o` is the last operand. -/
def Level.close (l : Level) (o : Operand) : List (List Operand) :=
  l.alternatives ++ [l.operands ++ [o]]

/-- The operands go on behind `o`. -/
def Level.connect (l : Level) (o : Operand) : Connective → Level
  | .all => ⟨l.alternatives, l.operands ++ [o]⟩
  | .any => ⟨l.close o, []⟩

/-- The alternatives that operands make under a connective. -/
def gather : Connective → List Operand → List (List Operand)
  | .all, os => [os]
  | .any, os => os.map fun o => [o]

/-- The alternatives, where operands follow under a connective. -/
def Level.closeWith (l : Level) (c : Connective) (os : List Operand) : List (List Operand) :=
  l.alternatives ++ (gather c os).modifyHead (l.operands ++ ·)

theorem closeWith_singleton (l : Level) (c : Connective) (o : Operand) :
    l.closeWith c [o] = l.close o := by
  cases c <;> rfl

theorem closeWith_cons (l : Level) (c : Connective) (o : Operand) (os : List Operand) :
    l.closeWith c (o :: os) = (l.connect o c).closeWith c os := by
  cases c with
  | all => simp [Level.closeWith, Level.connect, gather]
  | any => cases os <;> simp [Level.closeWith, Level.connect, Level.close, gather]

theorem closeWith_empty (c : Connective) (os : List Operand) :
    ({} : Level).closeWith c os = gather c os := by
  cases c with
  | all => rfl
  | any => cases os <;> rfl

/-- What stands at the place of an operand so far; the tokens of a comparison from last to first,
with the number of parentheses open in it. -/
inductive Pending where
  | nothing
  | atom (reversed : List Token) (depth : Nat)
  | group (alternatives : List (List Operand))

/-- The operand, if it may end here; spaces behind a comparison are none of it. -/
def Pending.operand? : Pending → Option Operand
  | nothing => none
  | atom reversed 0 => some (.atom (reversed.dropWhile (· = .space)).reverse)
  | atom _ (_ + 1) => none
  | group as => some (.group as)

/-- A state of the reader: what has been read inside of the parentheses around, from the inside
out, at this level, and at the place of an operand. -/
structure Reader where
  outer : List Level := []
  level : Level := {}
  pending : Pending := .nothing

namespace Reader

/-- A connective ends an operand. -/
def connect (r : Reader) (c : Connective) : Option Reader :=
  r.pending.operand?.map fun o => ⟨r.outer, r.level.connect o c, .nothing⟩

/-- The alternatives of this level, if they may end here. -/
def closed? (r : Reader) : Option (List (List Operand)) := r.pending.operand?.map r.level.close

/-- A parenthesis ends a level. -/
def leave (r : Reader) : Option Reader :=
  match r.outer with
  | [] => none
  | l :: outer => r.closed?.map fun as => ⟨outer, l, .group as⟩

def step (r : Reader) (t : Token) : Option Reader :=
  match r.pending with
  | .nothing =>
    match t with
    | .space => some r
    | .mark .openParen => some ⟨r.level :: r.outer, {}, .nothing⟩
    | .mark .closeParen | .keyword (.connective _) => none
    | t => some { r with pending := .atom [t] 0 }
  | .atom ts 0 =>
    match t with
    | .mark .closeParen => r.leave
    | .keyword (.connective c) => r.connect c
    | .mark .openParen => some { r with pending := .atom (t :: ts) 1 }
    | t => some { r with pending := .atom (t :: ts) 0 }
  | .atom ts (n + 1) =>
    match t with
    | .mark .openParen => some { r with pending := .atom (t :: ts) (n + 2) }
    | .mark .closeParen => some { r with pending := .atom (t :: ts) n }
    | t => some { r with pending := .atom (t :: ts) (n + 1) }
  | .group _ =>
    match t with
    | .space => some r
    | .mark .closeParen => r.leave
    | .keyword (.connective c) => r.connect c
    | _ => none

def run (r : Reader) (ts : List Token) : Option Reader := ts.foldlM step r

end Reader

/-- A predicate: alternatives of operands. -/
def read (ts : List Token) : Option (List (List Operand)) := do
  let r ← Reader.run {} ts
  if r.outer.isEmpty then r.closed? else none

/-- Parentheses aside, `and` binds tighter than `or`. -/
example (a b c : String) :
    read [.identifier a, .space, .keyword (.connective .any), .space, .identifier b, .space,
      .keyword (.connective .all), .space, .identifier c] =
      some [[.atom [.identifier a]], [.atom [.identifier b], .atom [.identifier c]]] := rfl

namespace Reader

section Run

variable {r s : Reader} {t : Token} {ts us : List Token}

theorem run_cons (r : Reader) (t : Token) (ts : List Token) :
    run r (t :: ts) = (step r t).bind fun s => run s ts := by
  rw [run, List.foldlM_cons]
  rfl

theorem run_singleton (r : Reader) (t : Token) : run r [t] = step r t := by
  rw [run_cons]
  cases step r t <;> rfl

theorem run_append (r : Reader) (ts us : List Token) :
    run r (ts ++ us) = (run r ts).bind fun s => run s us := by
  rw [run, List.foldlM_append]
  rfl

theorem run_append_of_eq (h : run r ts = some s) : run r (ts ++ us) = run s us := by
  rw [run_append, h]
  rfl

end Run

/-! ## Comparisons -/

section Atoms

variable {outer : List Level} {l : Level} {ts us : List Token}

/-- Inside of a comparison the tokens are taken up, one after the other. -/
def Kept (ts : List Token) : Prop :=
  ∀ outer l acc n, run ⟨outer, l, .atom acc n⟩ ts = some ⟨outer, l, .atom (ts.reverse ++ acc) n⟩

/-- The token is neither a parenthesis nor a connective. -/
def isOrdinary : Token → Bool
  | .mark .openParen | .mark .closeParen | .keyword (.connective _) => false
  | _ => true

theorem kept_nil : Kept [] := fun _ _ _ _ => rfl

theorem Kept.append (ht : Kept ts) (hu : Kept us) : Kept (ts ++ us) := by
  intro outer l acc n
  rw [run_append_of_eq (ht outer l acc n), hu, List.reverse_append, List.append_assoc]

theorem kept_singleton {t : Token} (h : isOrdinary t) : Kept [t] := by
  intro outer l acc n
  rw [run_singleton]
  cases n <;> cases t with
  | keyword k => cases k <;> first | rfl | exact absurd h Bool.false_ne_true
  | mark m => cases m <;> first | rfl | exact absurd h Bool.false_ne_true
  | _ => rfl

theorem kept_of_all (h : ts.all isOrdinary) : Kept ts := by
  induction ts with
  | nil => exact kept_nil
  | cons t ts ih =>
    obtain ⟨ht, hts⟩ := (Bool.and_eq_true _ _).mp h
    exact (kept_singleton ht).append (ih hts)

theorem Kept.inParens (h : Kept ts) : Kept (Expr.inParens ts) := by
  intro outer l acc n
  have hopen : step ⟨outer, l, .atom acc n⟩ (.mark .openParen) =
      some ⟨outer, l, .atom (.mark .openParen :: acc) (n + 1)⟩ := by cases n <;> rfl
  rw [Expr.inParens, run_cons, hopen, Option.bind_some, run_append_of_eq (h _ _ _ _),
    run_singleton]
  show some _ = some _
  simp

theorem Kept.flatMap {α : Type} {f : α → List Token} {xs : List α} (h : ∀ x ∈ xs, Kept (f x)) :
    Kept (xs.flatMap f) := by
  induction xs with
  | nil => exact kept_nil
  | cons x xs ih =>
    rw [List.flatMap_cons]
    exact (h x (by simp)).append (ih fun y hy => h y (by simp [hy]))

theorem Kept.joinWith {sep : List Token} (hsep : Kept sep) {tss : List (List Token)}
    (h : ∀ ts ∈ tss, Kept ts) : Kept (joinWith sep tss) := by
  induction tss with
  | nil => exact kept_nil
  | cons ts tss ih =>
    have hts := h ts (by simp)
    by_cases hne : tss = []
    · subst hne
      exact hts
    · rw [joinWith_cons _ _ hne]
      exact (hts.append hsep).append (ih fun us hus => h us (by simp [hus]))

/-- Tokens of a comparison: the first is no space, the last is none either, and behind the first
all are kept. -/
structure IsComparison (ts : List Token) : Prop where
  head : ∃ t us, ts = t :: us ∧ isOrdinary t ∧ t ≠ .space ∧ Kept us
  last : ∃ t, ts.getLast? = some t ∧ t ≠ .space

theorem isComparison_singleton {t : Token} (h : isOrdinary t) (hne : t ≠ .space) :
    IsComparison [t] :=
  ⟨⟨t, [], rfl, h, hne, kept_nil⟩, t, rfl, hne⟩

theorem last_inParens (ts : List Token) :
    ∃ t, (Expr.inParens ts).getLast? = some t ∧ t ≠ .space := by
  refine ⟨.mark .closeParen, ?_, by simp⟩
  rw [Expr.inParens, ← List.cons_append, List.getLast?_append]
  rfl

namespace IsComparison

theorem kept (h : IsComparison ts) : Kept ts := by
  obtain ⟨t, us, rfl, ht, -, hus⟩ := h.head
  exact (kept_singleton ht).append hus

/-- What is written behind the start of a comparison belongs to it. -/
theorem append (h : IsComparison ts) (hu : Kept us)
    (hlast : ∃ t, us.getLast? = some t ∧ t ≠ .space) : IsComparison (ts ++ us) := by
  obtain ⟨t, vs, rfl, ht, hspace, hvs⟩ := h.head
  obtain ⟨x, hx, hne⟩ := hlast
  refine ⟨⟨t, vs ++ us, rfl, ht, hspace, hvs.append hu⟩, x, ?_, hne⟩
  rw [List.getLast?_append, hx]
  rfl

theorem inParens (h : IsComparison ts) (hu : Kept us) : IsComparison (ts ++ Expr.inParens us) :=
  h.append hu.inParens (last_inParens us)

theorem spaced (h : IsComparison ts) {t : Token} (ht : isOrdinary t) (hu : Kept us)
    (hlast : ∃ t, us.getLast? = some t ∧ t ≠ .space) :
    IsComparison (ts ++ Expr.spaced t ++ us) := by
  obtain ⟨x, hx, hne⟩ := hlast
  have hspace : isOrdinary .space := rfl
  have hop : Kept (Expr.spaced t) := kept_of_all (by simp [Expr.spaced, ht, hspace])
  rw [List.append_assoc]
  refine h.append (hop.append hu) ⟨x, ?_, hne⟩
  rw [List.getLast?_append, hx]
  rfl

end IsComparison

theorem step_nothing {t : Token} (ht : isOrdinary t) (hne : t ≠ .space) :
    step ⟨outer, l, .nothing⟩ t = some ⟨outer, l, .atom [t] 0⟩ := by
  cases t with
  | keyword k => cases k <;> first | rfl | exact absurd ht Bool.false_ne_true
  | mark m => cases m <;> first | rfl | exact absurd ht Bool.false_ne_true
  | space => exact absurd rfl hne
  | _ => rfl

end Atoms

/-! ## Operands and rows of them -/

section Rows

variable {outer : List Level} {l l' : Level} {pending : Pending} {o : Operand} {c : Connective}
variable {ts : List Token} {as : List (List Operand)}

/-- Read at the place of an operand, the tokens are the operand `o`. -/
def Yields (ts : List Token) (o : Operand) : Prop :=
  ∀ outer l, ∃ pending, run ⟨outer, l, .nothing⟩ ts = some ⟨outer, l, pending⟩ ∧
    pending.operand? = some o

theorem IsComparison.yields (h : IsComparison ts) : Yields ts (.atom ts) := by
  intro outer l
  obtain ⟨t, us, rfl, ht, hne, hus⟩ := h.head
  refine ⟨.atom (t :: us).reverse 0, ?_, ?_⟩
  · rw [run_cons, step_nothing ht hne, Option.bind_some, hus, List.reverse_cons]
  · -- nothing is cut off at the end, as the last token is no space
    obtain ⟨x, hx, hspace⟩ := h.last
    obtain ⟨ys, hys⟩ := List.getLast?_eq_some_iff.mp hx
    rw [hys, List.reverse_append, List.reverse_singleton, List.singleton_append,
      Pending.operand?, List.dropWhile_cons_of_neg (by simpa using hspace), List.reverse_cons,
      List.reverse_reverse]

/-- An operand that may end is a comparison without open parentheses, or a group. -/
theorem operand_cases (h : pending.operand? = some o) :
    (∃ acc, pending = .atom acc 0) ∨ ∃ as, pending = .group as := by
  cases pending with
  | nothing => exact absurd h (by simp [Pending.operand?])
  | atom acc n =>
    cases n with
    | zero => exact .inl ⟨acc, rfl⟩
    | succ n => exact absurd h (by simp [Pending.operand?])
  | group as => exact .inr ⟨as, rfl⟩

/-- A space behind an operand is none of it. -/
theorem step_space (h : pending.operand? = some o) (outer : List Level) (l : Level) :
    ∃ pending', step ⟨outer, l, pending⟩ .space = some ⟨outer, l, pending'⟩ ∧
      pending'.operand? = some o := by
  rcases operand_cases h with ⟨acc, rfl⟩ | ⟨as, rfl⟩
  · exact ⟨.atom (.space :: acc) 0, rfl, h⟩
  · exact ⟨.group as, rfl, h⟩

theorem step_connective (h : pending.operand? = some o) :
    step ⟨outer, l, pending⟩ (.keyword (.connective c)) =
      some ⟨outer, l.connect o c, .nothing⟩ := by
  have hconnect : connect ⟨outer, l, pending⟩ c = some ⟨outer, l.connect o c, .nothing⟩ := by
    rw [connect, h]
    rfl
  rcases operand_cases h with ⟨acc, rfl⟩ | ⟨as, rfl⟩
  · exact hconnect
  · exact hconnect

theorem step_closeParen (h : closed? ⟨l' :: outer, l, pending⟩ = some as) :
    step ⟨l' :: outer, l, pending⟩ (.mark .closeParen) = some ⟨outer, l', .group as⟩ := by
  have hleave : leave ⟨l' :: outer, l, pending⟩ = some ⟨outer, l', .group as⟩ := by
    simp only [leave, h, Option.map_some]
  obtain ⟨o, ho, -⟩ := Option.map_eq_some_iff.mp h
  rcases operand_cases ho with ⟨acc, rfl⟩ | ⟨as, rfl⟩
  · exact hleave
  · exact hleave

theorem Yields.connect (h : Yields ts o) (c : Connective) :
    run ⟨outer, l, .nothing⟩ (ts ++ Expr.spaced (.keyword (.connective c))) =
      some ⟨outer, l.connect o c, .nothing⟩ := by
  obtain ⟨pending, hrun, hp⟩ := h outer l
  obtain ⟨pending', hspace, hp'⟩ := step_space hp outer l
  rw [run_append_of_eq hrun, Expr.spaced, run_cons, hspace, Option.bind_some, run_cons,
    step_connective hp', Option.bind_some, run_singleton]
  rfl

theorem tokens_combined (c : Connective) (es : List Expr) :
    (Expr.combined c es).tokens =
      joinWith (Expr.spaced (.keyword (.connective c))) (es.map Expr.tokens) := by
  unfold Expr.combined
  split
  · rfl
  · exact Expr.tokens_logical c es

/-- A row of operands under one connective is read up to its last operand. -/
theorem run_row {α : Type} {tokens : α → List Token} {operand : α → Operand} {xs : List α}
    (hne : xs ≠ []) (h : ∀ x ∈ xs, Yields (tokens x) (operand x)) (c : Connective)
    (outer : List Level) (l : Level) :
    ∃ l' pending,
      run ⟨outer, l, .nothing⟩
        (joinWith (Expr.spaced (.keyword (.connective c))) (xs.map tokens)) =
          some ⟨outer, l', pending⟩ ∧
      closed? ⟨outer, l', pending⟩ = some (l.closeWith c (xs.map operand)) := by
  -- each operand but the last leaves its mark on the level, so the level is arbitrary
  induction xs generalizing l with
  | nil => exact absurd rfl hne
  | cons x xs ih =>
    have hx := h x (by simp)
    by_cases hxs : xs = []
    · subst hxs
      obtain ⟨pending, hrun, hp⟩ := hx outer l
      refine ⟨l, pending, hrun, ?_⟩
      show pending.operand?.map l.close = _
      rw [hp, List.map_singleton, closeWith_singleton]
      rfl
    · have htokens : xs.map tokens ≠ [] := by simpa using hxs
      obtain ⟨l', pending, hrun, hclosed⟩ :=
        ih hxs (fun y hy => h y (by simp [hy])) (l.connect (operand x) c)
      refine ⟨l', pending, ?_, ?_⟩
      · rw [List.map_cons, joinWith_cons _ _ htokens, run_append_of_eq (hx.connect c), hrun]
      · rw [hclosed, List.map_cons, closeWith_cons]

/-- Operands in a row in parentheses are one operand. -/
theorem yields_inParens {α : Type} {tokens : α → List Token} {operand : α → Operand} {xs : List α}
    (hne : xs ≠ []) (h : ∀ x ∈ xs, Yields (tokens x) (operand x)) (c : Connective) :
    Yields (Expr.inParens (joinWith (Expr.spaced (.keyword (.connective c))) (xs.map tokens)))
      (.group (gather c (xs.map operand))) := by
  intro outer l
  obtain ⟨l', pending, hrun, hclosed⟩ := run_row hne h c (l :: outer) {}
  rw [closeWith_empty] at hclosed
  refine ⟨.group (gather c (xs.map operand)), ?_, rfl⟩
  have hopen : step ⟨outer, l, .nothing⟩ (.mark .openParen) = some ⟨l :: outer, {}, .nothing⟩ :=
    rfl
  rw [Expr.inParens, run_cons, hopen, Option.bind_some, run_append_of_eq hrun, run_singleton]
  exact step_closeParen hclosed

/-- A row of operands under one connective is a predicate. -/
theorem read_row {α : Type} {tokens : α → List Token} {operand : α → Operand} {xs : List α}
    (hne : xs ≠ []) (h : ∀ x ∈ xs, Yields (tokens x) (operand x)) (c : Connective) :
    read (joinWith (Expr.spaced (.keyword (.connective c))) (xs.map tokens)) =
      some (gather c (xs.map operand)) := by
  obtain ⟨l', pending, hrun, hclosed⟩ := run_row hne h c [] {}
  rw [closeWith_empty] at hclosed
  have hread : read (joinWith (Expr.spaced (.keyword (.connective c))) (xs.map tokens)) =
      closed? ⟨[], l', pending⟩ := by
    unfold read
    rw [hrun]
    rfl
  rw [hread, hclosed]

end Rows

end Reader

end Kusto.Kql
