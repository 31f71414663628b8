/-!
# Lexical errors

What can be wrong with a single token.  The message is recorded in the token;
tokenizing goes on behind it.
-/

namespace StyleTokens

/-- What is wrong with a token. -/
inductive LexError where
  | manyPoints
  | pointInExponent
  | exponentWithoutDigits
  | unreadableNumber (text : String)
  | openString
  | newlineInString
  | openAddress
  | addressCharacter (c : Char)
  | escape
  | stringEscape (c : Char)
  | unknownCharacter (c : Char)
  deriving DecidableEq, Repr

namespace LexError

def message : LexError -> String
  | manyPoints => "Multiple decimal points in a number token"
  | pointInExponent => "Decimals not allowed in exponent part of a number"
  | exponentWithoutDigits => "Exponent with no numeric input"
  | unreadableNumber text => "Unparseable number '" ++ text ++ "'"
  | openString => "Unterminated string value; EOF reached"
  | newlineInString => "Illegal newline in string value"
  | openAddress => "Unterminated url; EOF reached"
  | addressCharacter c => "Illegal character '" ++ String.singleton c ++ "' in url"
  | escape => "Invalid escape sequence"
  | stringEscape c => "Illegal escape '\\" ++ String.singleton c ++ "' in string"
  | unknownCharacter c => "Unknown character '" ++ String.singleton c ++ "'"

end LexError

end StyleTokens
