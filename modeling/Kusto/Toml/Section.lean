import Kusto.Toml.Value

/-!
# Tables in the making

A document adds entries to tables that are open in different ways. A name may be given a value
once, and a table may be the subject of one header.
-/

namespace Kusto.Toml

/-- How a table came into being. -/
inductive Origin where
  /-- As the parent of a table with a header. -/
  | parent
  /-- By its header. -/
  | header
  /-- By a dotted key. -/
  | dotted
  deriving DecidableEq

/-- What a name stands for in a table that is open. -/
inductive Entry where
  | value (value : Toml)
  | table (origin : Origin) (entries : List (String × Entry))
  /-- Tables under a repeated header; entries are added to the last. -/
  | tables (done : List (List (String × Entry))) (last : List (String × Entry))

/-- The entries of a table. -/
abbrev Entries := List (String × Entry)

/-- Set a name, in its place if it is there. -/
def Entries.set (es : Entries) (key : String) (e : Entry) : Entries :=
  match es with
  | [] => [(key, e)]
  | (k, old) :: rest => if k = key then (k, e) :: rest else (k, old) :: set rest key e

/-- Change the table at the end of a path; tables on the way come into being as parents. -/
def Entries.within (act : Entries → Option Entries) : List String → Entries → Option Entries
  | [], es => act es
  | k :: ks, es =>
    match es.lookup k with
    | none => do return es.set k (.table .parent (← within act ks []))
    | some (.table o sub) => do return es.set k (.table o (← within act ks sub))
    | some (.tables done last) => do return es.set k (.tables done (← within act ks last))
    | some (.value _) => none

/-- Give a value to a dotted name. The table that takes it must be one that dotted keys have made;
on the way to that table, a key may pass through parents of headers and the last of the tables
under a repeated header. -/
def Entries.assign (v : Toml) : List String → Entries → Option Entries
  | [], _ => none
  | [k], es => if (es.lookup k).isSome then none else some (es.set k (.value v))
  | k :: ks, es =>
    match es.lookup k with
    | none => do return es.set k (.table .dotted (← assign v ks []))
    | some (.table .dotted sub) => do return es.set k (.table .dotted (← assign v ks sub))
    | some (.table .parent sub) =>
      if 1 < ks.length then do return es.set k (.table .parent (← assign v ks sub)) else none
    | some (.tables done last) =>
      if 1 < ks.length then do return es.set k (.tables done (← assign v ks last)) else none
    | some (.table .header _) | some (.value _) => none

/-- Open a table by its header. -/
def Entries.open (key : String) (es : Entries) : Option Entries :=
  match es.lookup key with
  | none => some (es.set key (.table .header []))
  | some (.table .parent sub) => some (es.set key (.table .header sub))
  | _ => none

/-- Open one more table of an array by its header. -/
def Entries.append (key : String) (es : Entries) : Option Entries :=
  match es.lookup key with
  | none => some (es.set key (.tables [] []))
  | some (.tables done last) => some (es.set key (.tables (done ++ [last]) []))
  | _ => none

/-- Open the table of a header. -/
def Entries.header (repeated : Bool) (path : List String) (es : Entries) : Option Entries := do
  let key ← path.getLast?
  Entries.within (if repeated then Entries.append key else Entries.open key) path.dropLast es

mutual

/-- The value of an entry. -/
def Entry.close : Entry → Toml
  | .value v => v
  | .table _ es => .table (closeEntries es)
  | .tables done last => .array (closeTables done ++ [.table (closeEntries last)])
termination_by structural e => e

def closeEntries : List (String × Entry) → List (String × Toml)
  | [] => []
  | (k, e) :: es => (k, e.close) :: closeEntries es
termination_by structural es => es

def closeTables : List (List (String × Entry)) → List Toml
  | [] => []
  | es :: rest => .table (closeEntries es) :: closeTables rest
termination_by structural ts => ts

end

end Kusto.Toml
