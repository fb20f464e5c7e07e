import Kusto.Json.Value

/-!
# Fields of a record

Reading a record from the members of an object, whose unknown members are ignored, or from a list
of its fields in their order.
-/

namespace Kusto.Json

/-- The members of an object. -/
abbrev Members := List (String × Json)

/-- The members of a record. A list gives its fields in the order of `names`, from which the last
may be missing. -/
def record? (names : List String) : Json → Option Members
  | arr xs => if xs.length ≤ names.length then some (names.zip xs) else none
  | obj ms => some ms
  | _ => none

/-- A field that must be present. -/
def Members.required {α : Type} (ms : Members) (key : String) (read : Json → Option α) :
    Option α :=
  (ms.lookup key).bind read

/-- A field that has a default. -/
def Members.withDefault {α : Type} (ms : Members) (key : String) (standard : α)
    (read : Json → Option α) : Option α :=
  match ms.lookup key with
  | none => some standard
  | some v => read v

/-- A field that may be missing or null. -/
def Members.nullable {α : Type} (ms : Members) (key : String) (read : Json → Option α) :
    Option (Option α) :=
  match ms.lookup key with
  | none | some null => some none
  | some v => (read v).map some

/-- A text field that has a default of no characters. -/
def Members.text (ms : Members) (key : String) : Option String := ms.withDefault key "" text?

/-- The name of a case without data: a text, or an object whose only member has that key and is
null. -/
def caseName? : Json → Option String
  | str s => some s
  | obj [(key, null)] => some key
  | _ => none

/-- A list, read item by item. -/
def list? {α : Type} (read : Json → Option α) (j : Json) : Option (List α) := do
  (← j.items?).mapM read

/-- A member that is written only if it has a value. -/
def present {α : Type} (key : String) (write : α → Json) : Option α → Members
  | some v => [(key, write v)]
  | none => []

/-- A value that is `null` if absent. -/
def orNull {α : Type} (write : α → Json) : Option α → Json
  | some v => write v
  | none => null

end Kusto.Json
