/-!
# Parse options

What a caller may choose for tokenizing and for reading structure.
-/

namespace StyleTokens

structure Options where
  /-- How many blocks and calls may stand inside each other. -/
  maxDepth : Nat := 128
  /-- Are comments kept as tokens? -/
  keepComments : Bool := false
  deriving DecidableEq, Repr

namespace Options

def withMaxDepth (o : Options) (depth : Nat) : Options := { o with maxDepth := depth }

def withComments (o : Options) (keep : Bool) : Options := { o with keepComments := keep }

end Options

end StyleTokens
