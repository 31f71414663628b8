import StyleTokens.Location

/-!
# Strategy errors

What can be wrong with a run of tokens that should give a value, and with a value
that should be written as tokens.
-/

namespace StyleTokens

inductive StrategyError where
  | encodingUnsupported (strategy value kind : String)
  | noTokens
  | unknownToken (strategy token : String) (location : Location)
  | unclosed (strategy : String) (location : Location)
  | unclosedStream
  | multiple (kind : String) (location : Location)
  | missing (kind : String)
  | invalid (kind text : String) (location : Location)
  | unknownTokens (tokens : List String) (location : Location)
  | listNotClosed (location : Location)
  | listEntry (index : Nat) (messages : List String)
  | skippedEntry (index : Nat) (messages : List String)
  | splitNotFound
  | incompletePair
  | noValueStrategy (key : String)
  | missedPairs (count : Nat)
  | duplicateKeys (keys : List String)
  | noAlternatives
  deriving DecidableEq, Repr

namespace StrategyError

def message : StrategyError -> String
  | encodingUnsupported strategy value kind =>
      strategy ++ " strategy can't encode " ++ value ++ " as " ++ kind
  | noTokens => "No tokens available"
  | unknownToken strategy token l =>
      "Unknown token for " ++ strategy ++ " construction " ++ token ++ " found at " ++ l.text
  | unclosed strategy l => "Unclosed " ++ strategy ++ " found at " ++ l.text
  | unclosedStream => "Unclosed token stream found"
  | multiple kind l => "Multiple " ++ kind ++ " tokens found at " ++ l.text ++ ", expected 1"
  | missing kind => "No " ++ kind ++ " token found"
  | invalid kind text l => "Invalid " ++ kind ++ " '" ++ text ++ "' at " ++ l.text
  | unknownTokens tokens l =>
      "Unknown tokens at " ++ l.text ++ ": [" ++ ", ".intercalate tokens ++ "]"
  | listNotClosed l => "List not properly closed at " ++ l.text
  | listEntry index messages =>
      "Errors found constructing list entry " ++ toString index ++ ": " ++ " ".intercalate messages
  | skippedEntry index messages =>
      "Errors found constructing list entry " ++ toString index ++ ": " ++
        " ".intercalate messages ++ ", skipping entry"
  | splitNotFound => "Pair split not found"
  | incompletePair => "Couldn't construct pair"
  | noValueStrategy key => "No value strategy for key " ++ key
  | missedPairs count => toString count ++ " key-value pairs missed"
  | duplicateKeys keys => "Duplicated keys found: [" ++ ", ".intercalate keys ++ "]"
  | noAlternatives => "No valid alternatives"

end StrategyError

end StyleTokens
