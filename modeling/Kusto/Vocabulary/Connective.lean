/-!
# Connectives

The two ways of combining conditions.
-/

namespace Kusto

/-- `all` of the parts hold, or `any` of them. -/
inductive Connective where
  | all
  | any
  deriving DecidableEq, Inhabited

/-- The word for a connective, both in stored expressions and in queries. -/
def Connective.word : Connective → String
  | all => "and"
  | any => "or"

end Kusto
