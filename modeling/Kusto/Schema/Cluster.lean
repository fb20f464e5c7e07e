import Kusto.Schema.Column

/-!
# Clusters

The databases of a cluster and what they hold. Collections are in document order, and a name finds
the first object that bears it.
-/

namespace Kusto.Schema

/-- A table, a materialized view or an external table. -/
structure Table where
  name : String := ""
  columns : Columns := []
  deriving DecidableEq, Inhabited

/-- A stored function. -/
structure Function where
  name : String := ""
  body : String := ""
  inputs : Columns := []
  outputs : Columns := []
  deriving DecidableEq, Inhabited

/-- A database. -/
structure Database where
  name : String := ""
  tables : List Table := []
  views : List Table := []
  functions : List Function := []
  externals : List Table := []
  deriving DecidableEq, Inhabited

namespace Database

def table? (db : Database) (name : String) : Option Table := db.tables.find? (·.name = name)

def view? (db : Database) (name : String) : Option Table := db.views.find? (·.name = name)

def external? (db : Database) (name : String) : Option Table := db.externals.find? (·.name = name)

def function? (db : Database) (name : String) : Option Function :=
  db.functions.find? (·.name = name)

/-- The columns of an object: a table, else a view, else an external table, else the output of a
function. -/
def columns? (db : Database) (name : String) : Option Columns :=
  ((db.table? name).or ((db.view? name).or (db.external? name))).map Table.columns
    |>.or ((db.function? name).map Function.outputs)

end Database

/-- A cluster. -/
structure Cluster where
  databases : List Database := []
  deriving DecidableEq, Inhabited

/-- Why the columns of an object are not known. -/
inductive Missing where
  | database (name : String)
  | table (database table : String)
  deriving DecidableEq

def Missing.message : Missing → String
  | database name => "database not found: " ++ name
  | table db name => "no table, view or function named " ++ name ++ " in database " ++ db

namespace Cluster

def database? (c : Cluster) (name : String) : Option Database :=
  c.databases.find? (·.name = name)

/-- The columns of an object of a database. -/
def resolve (c : Cluster) (database name : String) : Except Missing Columns :=
  match c.database? database with
  | none => .error (.database database)
  | some db =>
    match db.columns? name with
    | none => .error (.table database name)
    | some cs => .ok cs

/-- The columns of an object of a database; none if it is missing. -/
def columnsOf (c : Cluster) (database name : String) : Columns :=
  match c.resolve database name with
  | .ok cs => cs
  | .error _ => []

/-- The databases as options. -/
def choices (c : Cluster) : List Choice := c.databases.map (Choice.plain ·.name .string)

end Cluster

end Kusto.Schema
