import Kusto.Vocabulary.ValueType

/-!
# Bin widths

The widths offered for grouping by time.
-/

namespace Kusto.BinWidth

/-- The width used where none is chosen. -/
def standard : String := "1m"

/-- All widths offered, narrow ones first. -/
def all : List String := [standard, "5m", "15m", "30m", "1h", "6h", "12h", "1d"]

/-- The widths as options. -/
def choices : List Choice := all.map (Choice.plain · .interval)

end Kusto.BinWidth
