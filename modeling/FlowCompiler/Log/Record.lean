/-!
# Log records

What happens during a run is noted in records: a level, a message, and named values.
-/

namespace FlowCompiler.Log

/-- How important a record is. -/
inductive Level where
  | debug
  | info
  | warn
  | error
deriving DecidableEq, Repr

/-- The number of a level; higher ones are more important. -/
def Level.number : Level → Int
  | debug => -4
  | info => 0
  | warn => 4
  | error => 8

/-- A named value of a record. -/
inductive Datum where
  | text (s : String)
  | int (n : Int)
deriving DecidableEq, Repr

/-- A record. -/
structure Record where
  level : Level
  message : String
  data : List (String × Datum) := []
deriving DecidableEq, Repr

end FlowCompiler.Log
