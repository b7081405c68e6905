/-!
# Failures

How the driver and the staging fail.
-/

namespace SorobanExplorer.Persist

/-- A driver failure, as far as the retry envelope tells them apart. -/
inductive ChError
  | network
  | timedOut
  | badResponse (message : String)
  | other
  deriving DecidableEq, Repr

inductive SchemaError
  | query (error : ChError)
  | staging (message : String)
  deriving DecidableEq, Repr

end SorobanExplorer.Persist
