/-!
# Result formats

The shapes in which a result can be asked for.
-/

namespace Kusto

/-- How a result is shaped. -/
inductive ResultFormat where
  /-- One frame as it is. -/
  | table
  /-- A series for each combination of labels. -/
  | timeSeries
  /-- A series for each row, its points in arrays. -/
  | arraySeries
  deriving DecidableEq, Inhabited

namespace ResultFormat

def name : ResultFormat → String
  | table => "table"
  | timeSeries => "time_series"
  | arraySeries => "adx_time_series"

def all : List ResultFormat := [table, timeSeries, arraySeries]

/-- The format of a stored name. -/
def ofName? (s : String) : Option ResultFormat := all.find? (·.name = s)

@[simp] theorem ofName?_name (f : ResultFormat) : ofName? f.name = some f := by
  cases f <;> decide

theorem name_of_ofName? {s : String} {f : ResultFormat} (h : ofName? s = some f) : f.name = s := by
  unfold ofName? at h
  simpa using List.find?_some h

/-- The message about a name that no format has. -/
def unknownMessage (name : String) : String := "unknown result format: " ++ name

end ResultFormat

end Kusto
