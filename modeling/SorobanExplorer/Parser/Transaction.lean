import Mathlib.Data.Nat.Notation

/-!
# Transactions

One extracted transaction, as far as the modelled stages read it.
-/

namespace SorobanExplorer

structure ExtractedTransaction where
  hash : String
  sourceAccount : String
  sourceMuxedId : Option UInt64
  memoType : Option String
  memo : Option String
  parseError : Bool
  deriving DecidableEq

end SorobanExplorer
