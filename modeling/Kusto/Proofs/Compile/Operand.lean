import Kusto.Proofs.Compile.Form
import Mathlib.Data.List.Forall2

/-!
# Operands — whether a condition is compared with all of its values

A condition that is written has one operand for each of its values, in their order, or else a
marker and a warning take its place.  The operators of a single operand make the one exception: of
several values they take the first, and the others are dropped without a warning
(`keepsValues_iff`).
-/

namespace Kusto.Kql.Expr

/-- What a comparison has its subject compared with, from left to right. -/
def operands : Expr → List Expr
  | binary _ _ right => [right]
  | membership _ _ values => values
  | range _ _ low high => [low, high]
  | _ => []

end Kusto.Kql.Expr

namespace Kusto.Compile

open Draft (Scalar Condition)
open Kql (Expr)

/-! ## Comparisons -/

section Comparisons

variable {ctx : Context} {o : FilterOperator} {p : Property} {values : List Scalar} {e : Expr}

/-- The operands are the values as constants of the type, one for each and in their order. -/
def AreConstants (type : ValueType) : List Scalar → List Expr → Prop :=
  List.Forall₂ fun v x => constant? type v = some x

theorem operand_of_constant {name : String} {type : ValueType} {v : Scalar}
    (h : constant? type v = some e) : operand name type v = .ok e := by
  unfold operand
  rw [h]

theorem areConstants_mapM {name : String} {type : ValueType} {es : List Expr}
    (h : values.mapM (operand name type) = .ok es) : AreConstants type values es := by
  induction values generalizing es with
  | nil =>
    obtain rfl := Except.ok.inj h
    exact .nil
  | cons v values ih =>
    rw [List.mapM_cons] at h
    obtain ⟨x, hx, h⟩ := exists_of_bind_ok h
    obtain ⟨xs, hxs, h⟩ := exists_of_bind_ok h
    obtain rfl := Except.ok.inj h
    exact .cons (constant_of_operand hx) (ih hxs)

/-- An operator of one operand takes the first value, whatever follows. -/
theorem comparison_single (hform : o.form = .single) (v : Scalar) (rest : List Scalar) :
    comparison ctx o p (v :: rest) =
      (operand p.name p.type v).map fun x => .binary (reference ctx p) o.name x := by
  unfold comparison
  rw [hform]
  dsimp only
  cases operand p.name p.type v <;> rfl

theorem single_of_comparison (hform : o.form = .single) (h : comparison ctx o p values = .ok e) :
    ∃ v rest x, values = v :: rest ∧ constant? p.type v = some x ∧
      e = .binary (reference ctx p) o.name x := by
  cases values with
  | nil =>
    unfold comparison at h
    rw [hform] at h
    exact absurd h (by simp)
  | cons v rest =>
    rw [comparison_single hform] at h
    obtain ⟨x, hx, he⟩ := map_eq_ok_iff.mp h
    exact ⟨v, rest, x, rfl, constant_of_operand hx, he⟩

/-- A list or a range has all values as operands. -/
theorem areConstants_of_comparison (hcall : o.form ≠ .call) (hsingle : o.form ≠ .single)
    (h : comparison ctx o p values = .ok e) : AreConstants p.type values e.operands := by
  unfold comparison at h
  cases hform : o.form with
  | call => exact absurd hform hcall
  | single => exact absurd hform hsingle
  | list =>
    rw [hform] at h
    dsimp only at h
    split at h
    · exact absurd h (by simp)
    · obtain ⟨es, hes, h⟩ := exists_of_bind_ok h
      obtain rfl := Except.ok.inj h
      exact areConstants_mapM hes
  | range =>
    rw [hform] at h
    dsimp only at h
    split at h
    · obtain ⟨low, hlow, h⟩ := exists_of_bind_ok h
      obtain ⟨high, hhigh, h⟩ := exists_of_bind_ok h
      obtain rfl := Except.ok.inj h
      exact .cons (constant_of_operand hlow) (.cons (constant_of_operand hhigh) .nil)
    · exact absurd h (by simp)

end Comparisons

/-! ## Conditions -/

section Conditions

variable (ctx : Context) {c : Condition} {o : FilterOperator}

/-- No value of the condition is dropped in silence. -/
inductive KeepsValues (c : Condition) : Prop
  /-- A marker stands in its place, and a warning tells of invalid values. -/
  | marked (text : String) (h : conditionPiece? ctx c =
      some (.ofResult (.error (.invalid c.property.name text c.property.type))))
  /-- It is written with all of its values. -/
  | written (e : Expr) (h : conditionPiece? ctx c = some ⟨e, []⟩)
    (hvalues : AreConstants c.property.type (operands c) e.operands)

/-- There are several values for an operator of one, and the first can be written. -/
def DropsValues (o : FilterOperator) (c : Condition) : Prop :=
  o.form = .single ∧ ∃ v w rest, operands c = v :: w :: rest ∧
    (constant? c.property.type v).isSome

theorem conditionPiece_of_find (hcomplete : isComplete c)
    (hfind : FilterOperator.find? (Text.trim c.operator.name) = some o)
    (hsupports : o.supports c.property.type) :
    conditionPiece? ctx c = some (.ofResult (comparison ctx o c.property (operands c))) := by
  have hfilter : (some o).filter (·.supports c.property.type) = some o :=
    Option.filter_some_pos hsupports
  unfold conditionPiece? condition
  rw [if_pos hcomplete]
  dsimp only
  rw [hfind, hfilter]

/-- Of several values for an operator of one the first alone is written. -/
theorem conditionPiece_of_dropsValues (hcomplete : isComplete c)
    (hfind : FilterOperator.find? (Text.trim c.operator.name) = some o)
    (hsupports : o.supports c.property.type) (hdrops : DropsValues o c) :
    ∃ v rest x, operands c = v :: rest ∧ rest ≠ [] ∧ constant? c.property.type v = some x ∧
      conditionPiece? ctx c = some ⟨.binary (reference ctx c.property) o.name x, []⟩ := by
  obtain ⟨hform, v, w, rest, hvalues, hsome⟩ := hdrops
  obtain ⟨x, hx⟩ := Option.isSome_iff_exists.mp hsome
  refine ⟨v, w :: rest, x, hvalues, by simp, hx, ?_⟩
  rw [conditionPiece_of_find ctx hcomplete hfind hsupports, hvalues, comparison_single hform,
    operand_of_constant hx]
  rfl

variable {ctx}

/-- A condition with one operand and without a warning has kept one value. -/
theorem KeepsValues.length_eq_one {column x : Expr} {op : String} (hkeeps : KeepsValues ctx c)
    (hpiece : conditionPiece? ctx c = some ⟨.binary column op x, []⟩) :
    (operands c).length = 1 := by
  cases hkeeps with
  | marked text h =>
    have hwarnings := congrArg Piece.warnings (Option.some.inj (hpiece.symm.trans h))
    exact absurd hwarnings (by simp [Piece.ofResult])
  | written e h hall =>
    have he := congrArg Piece.expr (Option.some.inj (hpiece.symm.trans h))
    have hlength := hall.length_eq
    rwa [← show Expr.binary column op x = e from he] at hlength

variable (ctx)

/-- **Where values are dropped.**  A complete condition by an operator of the catalog that has
operands and supports the type keeps all of its values, written or told of as invalid, unless there
are several for an operator of one and the first can be written.  Then the first alone is written,
and there is no warning. -/
theorem keepsValues_iff (hcomplete : isComplete c)
    (hfind : FilterOperator.find? (Text.trim c.operator.name) = some o)
    (hsupports : o.supports c.property.type) (hcall : o.form ≠ .call) :
    (KeepsValues ctx c ↔ ¬ DropsValues o c) ∧
      (DropsValues o c → ∃ v rest x, operands c = v :: rest ∧ rest ≠ [] ∧
        constant? c.property.type v = some x ∧
        conditionPiece? ctx c = some ⟨.binary (reference ctx c.property) o.name x, []⟩) := by
  have hpiece := conditionPiece_of_find ctx hcomplete hfind hsupports
  have hdropped := conditionPiece_of_dropsValues ctx hcomplete hfind hsupports
  refine ⟨⟨fun hkeeps hdrops => ?_, fun hnot => ?_⟩, hdropped⟩
  · obtain ⟨v, rest, x, hvalues, hne, -, hwritten⟩ := hdropped hdrops
    have hone := hkeeps.length_eq_one hwritten
    rw [hvalues, List.length_cons] at hone
    exact hne (List.length_eq_zero_iff.mp (Nat.succ.inj hone))
  · cases hcomparison : comparison ctx o c.property (operands c) with
    | error w =>
      obtain ⟨text, rfl⟩ := invalid_of_comparison hcomparison
      exact .marked text (by rw [hpiece, hcomparison])
    | ok e =>
      refine .written e (by rw [hpiece, hcomparison]; rfl) ?_
      -- A written list or range has all values; an operator of one has just the first, which is all
      -- of them unless a second one could have been dropped.
      by_cases hsingle : o.form = .single
      · obtain ⟨v, rest, x, hvalues, hx, rfl⟩ := single_of_comparison hsingle hcomparison
        cases rest with
        | nil =>
          rw [hvalues]
          exact .cons hx .nil
        | cons w rest =>
          exact absurd ⟨hsingle, v, w, rest, hvalues, Option.isSome_of_eq_some hx⟩ hnot
      · exact areConstants_of_comparison hcall hsingle hcomparison

/-- A column compared with values by an operator. -/
def levelCondition (operator : String) (levels : List String) : Condition :=
  ⟨⟨"Level", .string⟩, { name := operator, value := some (.many (levels.map .text)) }⟩

theorem keepsValues_levels :
    KeepsValues {} (levelCondition "in" ["Error", "Warning"]) ∧
      isComplete (levelCondition "in" ["Error", "Warning"]) ∧
      FilterOperator.find? "in" = some ⟨"in", .list, [.number, .string]⟩ := by
  have hcomplete : isComplete (levelCondition "in" ["Error", "Warning"]) := by decide
  have hfind : FilterOperator.find? (Text.trim "in") = some ⟨"in", .list, [.number, .string]⟩ := by
    decide
  have hkeeps := keepsValues_iff {} hcomplete hfind (by decide) (by decide)
  exact ⟨hkeeps.1.mpr fun h => absurd h.1 (by decide), hcomplete, by decide⟩

/-- Of two values for equality the second is dropped. -/
theorem not_keepsValues_equal :
    isComplete (levelCondition "==" ["Error", "Warning"]) ∧
      operands (levelCondition "==" ["Error", "Warning"]) = [.text "Error", .text "Warning"] ∧
      conditionPiece? {} (levelCondition "==" ["Error", "Warning"]) =
        some ⟨.binary (.column "Level") "==" (.literal (.text "Error")), []⟩ ∧
      ¬ KeepsValues {} (levelCondition "==" ["Error", "Warning"]) := by
  have hpiece : conditionPiece? {} (levelCondition "==" ["Error", "Warning"]) =
      some ⟨.binary (.column "Level") "==" (.literal (.text "Error")), []⟩ := rfl
  exact ⟨by decide, rfl, hpiece, fun h => absurd (h.length_eq_one hpiece) (by decide)⟩

end Conditions

end Kusto.Compile
