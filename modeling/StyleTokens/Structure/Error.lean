import StyleTokens.Location

/-!
# Structural errors

What can be wrong with a run of tokens.
-/

namespace StyleTokens

inductive StructureError where
  | unexpectedEof (construct : String) (location : Location)
  | unclosed (construct : String) (location : Location)
  | exhausted (construct : String)
  | unexpectedToken (expected found : String) (location : Location)
  | missingColon (name : String) (location : Location)
  | emptyDeclaration (name : String) (location : Location)
  | illegalToken (token : String) (location : Location)
  | lexical (token message : String) (location : Location)
  | depthLimit (limit : Nat) (location : Location)
  deriving DecidableEq, Repr

namespace StructureError

def message : StructureError -> String
  | unexpectedEof construct l =>
      "Unexpected EOF before " ++ construct ++ " completed at " ++ l.text
  | unclosed construct l => "Unclosed " ++ construct ++ " encountered at " ++ l.text
  | exhausted construct => "Token queue exhausted before " ++ construct ++ " could start"
  | unexpectedToken expected found l =>
      "Expected " ++ expected ++ " at " ++ l.text ++ ", found " ++ found
  | missingColon name l => "Declaration without ':' for [" ++ name ++ "] at " ++ l.text
  | emptyDeclaration name l => "Empty declaration for [" ++ name ++ "] at " ++ l.text
  | illegalToken token l =>
      "Illegal token " ++ token ++ " found in style block at " ++ l.text ++ ", skipping"
  | lexical token message l => "Lexical error in " ++ token ++ " at " ++ l.text ++ ": " ++ message
  | depthLimit limit l =>
      "Nesting depth limit of " ++ toString limit ++ " exceeded at " ++ l.text

end StructureError

end StyleTokens
