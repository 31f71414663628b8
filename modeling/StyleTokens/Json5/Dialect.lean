import StyleTokens.Dialect
import StyleTokens.Json5.Kinds
import StyleTokens.Json5.Literal
import StyleTokens.Json5.Numeric
import StyleTokens.Text.Comment
import StyleTokens.Text.Letter

/-!
# The dialect of data documents

The JSON5 notation.  Line feeds are tokens, so that readers can stop at the end
of a line; comments are left out.
-/

namespace StyleTokens
namespace Json5

/-!
## Blanks, lines and punctuation
-/

/-- A blank other than a line feed. -/
def isBlank (c : Char) : Bool := c != '\n' && Text.isBlank c

def startsBlank : List Char -> Bool
  | c :: _ => isBlank c
  | [] => false

def readBlanks (input : List Char) : Token × List Char :=
  (.bare whitespace, input.dropWhile isBlank)

def startsLine : List Char -> Bool
  | c :: _ => c == '\n'
  | [] => false

def readLine (input : List Char) : Token × List Char :=
  (.bare .eol, input.drop 1)

theorem readLine_suffix (cs : List Char) : (readLine cs).2 <:+ cs :=
  List.drop_suffix 1 cs

def punctuation? (c : Char) : Option Kind :=
  match c with
  | '[' => some openArray
  | ']' => some closeArray
  | '\x7b' => some openObject
  | '\x7d' => some closeObject
  | ',' => some comma
  | ':' => some colon
  | _ => none

def startsPunctuation : List Char -> Bool
  | c :: _ => (punctuation? c).isSome
  | [] => false

def readPunctuation : List Char -> Token × List Char
  | c :: cs => (.bare ((punctuation? c).getD .unknown), cs)
  | [] => (.bare .unknown, [])

theorem readPunctuation_suffix (cs : List Char) : (readPunctuation cs).2 <:+ cs := by
  cases cs with
  | nil => exact List.suffix_refl []
  | cons c cs => exact List.suffix_cons c cs

/-!
## Comments
-/

def startsLineComment (input : List Char) : Bool :=
  ['/', '/'].isPrefixOf input

def skipComment (input : List Char) : List Char :=
  if startsLineComment input then input.dropWhile fun c => c != '\n'
  else (Text.readComment (input.drop 2)).2

theorem skipComment_suffix (cs : List Char) : skipComment cs <:+ cs := by
  rw [skipComment]
  split
  · exact List.dropWhile_suffix _
  · exact (Text.readComment_suffix _).trans (List.drop_suffix 2 cs)

/-!
## Strings, numbers and words
-/

def startsString : List Char -> Bool
  | c :: _ => c == '"' || c == '\''
  | [] => false

def readString : List Char -> Token × List Char
  | [] => (.bare badString, [])
  | quote :: cs =>
      let found := readLiteral quote cs
      match found.error with
      | none => (.ofText string found.value, found.rest)
      | some e => ((Token.ofText badString found.value).withError e.message, found.rest)

theorem readString_suffix (cs : List Char) : (readString cs).2 <:+ cs := by
  cases cs with
  | nil => exact List.suffix_refl []
  | cons quote cs =>
      have hrest : (readLiteral quote cs).rest <:+ quote :: cs :=
        (readLiteral_suffix quote cs).trans (List.suffix_cons quote cs)
      simp only [readString]
      split
      · exact hrest
      · exact hrest

def startsNumber : List Char -> Bool
  | c :: _ => c == '+' || c == '-' || c == '.' || c.isDigit
  | [] => false

def readNumeric (input : List Char) : Token × List Char :=
  let found := readNumber input
  match found.result with
  | .ok n => (.of number (.number n), found.rest)
  | .error e => ((Token.bare badNumber).withError e.message, found.rest)

theorem readNumeric_suffix (cs : List Char) : (readNumeric cs).2 <:+ cs := by
  simp only [readNumeric]
  split
  · exact readNumber_suffix cs
  · exact readNumber_suffix cs

def isWordStart (c : Char) : Bool := Text.isLetter c || c == '_' || c == '$'

def isWordChar (c : Char) : Bool := isWordStart c || c.isDigit

def startsWord : List Char -> Bool
  | c :: _ => isWordStart c
  | [] => false

def wordToken (word : String) : Token :=
  if word = "true" then .of boolean (.bool true)
  else if word = "false" then .of boolean (.bool false)
  else if word = "null" then .bare null
  else if word = "Infinity" then .of number (.number (.float (.infinite false)))
  else if word = "NaN" then .of number (.number (.float .nan))
  else .of ident (.text word)

def readWord (input : List Char) : Token × List Char :=
  (wordToken (String.ofList (input.takeWhile isWordChar)), input.dropWhile isWordChar)

/-!
## The dialect
-/

def blankScanner : Scanner :=
  .ofRead "whitespace" startsBlank readBlanks fun _ => List.dropWhile_suffix _

def lineScanner : Scanner :=
  .ofRead "newline" startsLine readLine readLine_suffix

def punctuationScanner : Scanner :=
  .ofRead "punctuation" startsPunctuation readPunctuation readPunctuation_suffix

def commentScanner : Scanner :=
  { id := "comment"
    claims := fun input => startsLineComment input || Text.startsComment input
    scan := fun _ input => ⟨[], skipComment input, skipComment_suffix input⟩ }

def stringScanner : Scanner :=
  .ofRead "string" startsString readString readString_suffix

def numberScanner : Scanner :=
  .ofRead "number" startsNumber readNumeric readNumeric_suffix

def wordScanner : Scanner :=
  .ofRead "word" startsWord readWord fun _ => List.dropWhile_suffix _

def dialect : Dialect :=
  { name := dialectName
    registry := Registry.core.adding dialectName kinds
    scanners :=
      [blankScanner, lineScanner, punctuationScanner, commentScanner, stringScanner,
        numberScanner, wordScanner]
    fallback := .unknown
    prepare := id }

/-- The shared kinds and those of the dialect differ, so all of them can be registered. -/
example : Registry.core.registerAll kinds = (dialect.registry, none) := rfl

def tokenize (o : Options) (s : String) : List Token :=
  dialect.tokenize o s

end Json5
end StyleTokens
