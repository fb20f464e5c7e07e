import Kusto.Json.Fields
import Kusto.Json.Printer
import Kusto.Vocabulary.ValueType

/-!
# Operands

The values typed into a filter or given to an aggregate function.
-/

namespace Kusto.Draft

/-- A single value. -/
inductive Scalar where
  | bool (value : Bool)
  | number (value : Json.Number)
  | text (value : String)
  deriving DecidableEq

namespace Scalar

instance : Inhabited Scalar := ⟨text ""⟩

/-- The value as the user typed it. -/
def asText : Scalar → String
  | bool b => Json.boolText b
  | number n => n.text
  | text s => s

def toJson : Scalar → Json
  | bool b => .bool b
  | number n => .num n
  | text s => .str s

def ofJson? : Json → Option Scalar
  | .bool b => some (bool b)
  | .num n => some (number n)
  | .str s => some (text s)
  | _ => none

@[simp] theorem ofJson?_toJson (v : Scalar) : ofJson? v.toJson = some v := by
  cases v <;> rfl

end Scalar

/-- What an operator is applied to: one value or a list of them. -/
inductive Operand where
  | one (value : Scalar)
  | many (values : List Scalar)
  deriving DecidableEq

namespace Operand

/-- The values; a single one makes a list of its own. -/
def values : Operand → List Scalar
  | one v => [v]
  | many vs => vs

def toJson : Operand → Json
  | one v => v.toJson
  | many vs => .arr (vs.map Scalar.toJson)

def ofJson? : Json → Option Operand
  | .arr xs => (xs.mapM Scalar.ofJson?).map many
  | j => (Scalar.ofJson? j).map one

theorem mapM_ofJson?_toJson (vs : List Scalar) :
    (vs.map Scalar.toJson).mapM Scalar.ofJson? = some vs := by
  induction vs with
  | nil => rfl
  | cons v vs ih => simp [ih]

@[simp] theorem ofJson?_toJson (v : Operand) : ofJson? v.toJson = some v := by
  cases v with
  | one v => cases v <;> rfl
  | many vs =>
    show ((vs.map Scalar.toJson).mapM Scalar.ofJson?).map many = some (many vs)
    rw [mapM_ofJson?_toJson]
    rfl

end Operand

/-- An operator with its operand, and with the labels that the editor shows for it. -/
structure Operator where
  name : String
  value : Option Operand := none
  label : Option Operand := none
  deriving DecidableEq, Inhabited

/-- An argument of an aggregate function after the column. -/
structure Parameter where
  name : String
  value : Scalar := .text ""
  type : ValueType := .string
  deriving DecidableEq, Inhabited

namespace Operator

def toJson (o : Operator) : Json :=
  .obj (("name", .str o.name) ::
    (Json.present "value" Operand.toJson o.value ++
      Json.present "labelValue" Operand.toJson o.label))

def ofJson? (j : Json) : Option Operator := do
  let ms ← j.record? ["name", "value", "labelValue"]
  return {
    name := ← ms.required "name" Json.text?
    value := ← ms.nullable "value" Operand.ofJson?
    label := ← ms.nullable "labelValue" Operand.ofJson? }

end Operator

end Kusto.Draft

namespace Kusto

/-- A stored type name; `null` stands for the default. -/
def ValueType.ofJson? : Json → Option ValueType
  | .str s => some (ofName s)
  | .null => some .string
  | _ => none

def ValueType.toJson (t : ValueType) : Json := .str t.name

@[simp] theorem ValueType.ofJson?_toJson (t : ValueType) : ofJson? t.toJson = some t := by
  simp [toJson, ofJson?]

def Property.toJson (p : Property) : Json := .obj [("name", .str p.name), ("type", p.type.toJson)]

def Property.ofJson? (j : Json) : Option Property := do
  let ms ← j.record? ["name", "type"]
  return {
    name := ← ms.required "name" Json.text?
    type := ← ms.withDefault "type" .string ValueType.ofJson? }

@[simp] theorem Property.ofJson?_toJson (p : Property) : ofJson? p.toJson = some p := by
  cases p with
  | mk name type =>
    simp [toJson, ofJson?, Json.record?, Json.Members.required, Json.Members.withDefault,
      List.lookup_cons, Json.text?]

end Kusto
