import StyleTokens.Css.NameLike
import StyleTokens.Css.Numeric
import StyleTokens.Dialect
import StyleTokens.Text.Comment

/-!
# The dialect of style sheets

Its scanners start at different characters, so their order does not matter.  A
comment is read whole, and emitted only if comments are kept.
-/

namespace StyleTokens

namespace Css

def startsWith (mark : Char) : List Char -> Bool
  | c :: _ => c == mark
  | [] => false

def readDelim : List Char -> Token × List Char
  | c :: cs => (.of delim (.char c), cs)
  | [] => (.of delim .none, [])

theorem readDelim_suffix (cs : List Char) : (readDelim cs).2 <:+ cs := by
  cases cs with
  | nil => exact List.suffix_refl []
  | cons c cs => exact List.suffix_cons c cs

/-!
## Blanks and punctuation
-/

def startsBlank : List Char -> Bool
  | c :: _ => isBlank c
  | [] => false

def readBlanks (input : List Char) : Token × List Char :=
  (.bare whitespace, input.dropWhile isBlank)

def punctuation? (c : Char) : Option Kind :=
  match c with
  | ';' => some semicolon
  | ':' => some colon
  | ',' => some comma
  | '(' => some openParen
  | ')' => some closeParen
  | '[' => some openBracket
  | ']' => some closeBracket
  | '\x7b' => some openBrace
  | '\x7d' => some closeBrace
  | _ => none

def startsPunctuation : List Char -> Bool
  | c :: _ => (punctuation? c).isSome
  | [] => false

def readPunctuation : List Char -> Token × List Char
  | c :: cs => (.bare ((punctuation? c).getD delim), cs)
  | [] => (.bare delim, [])

theorem readPunctuation_suffix (cs : List Char) : (readPunctuation cs).2 <:+ cs := by
  cases cs with
  | nil => exact List.suffix_refl []
  | cons c cs => exact List.suffix_cons c cs

/-!
## Signs, points and digits
-/

def readNumberOrDelim (input : List Char) : Token × List Char :=
  if startsNumber input then readNumeric input else readDelim input

theorem readNumberOrDelim_suffix (cs : List Char) : (readNumberOrDelim cs).2 <:+ cs := by
  rw [readNumberOrDelim]
  split
  · exact readNumeric_suffix cs
  · exact readDelim_suffix cs

def readHyphen (input : List Char) : Token × List Char :=
  if startsNumber input then readNumeric input
  else if ['-', '-', '>'].isPrefixOf input then (.bare cdc, input.drop 3)
  else if startsName input then readNameLike input
  else readDelim input

theorem readHyphen_suffix (cs : List Char) : (readHyphen cs).2 <:+ cs := by
  rw [readHyphen]
  split
  · exact readNumeric_suffix cs
  · split
    · exact List.drop_suffix 3 cs
    · split
      · exact readNameLike_suffix cs
      · exact readDelim_suffix cs

/-!
## Names behind a mark
-/

def startsHashName : List Char -> Bool
  | c :: cs => isNameChar c || startsEscape (c :: cs)
  | [] => false

def readHash (input : List Char) : Token × List Char :=
  let name := readName (input.drop 1)
  if startsHashName (input.drop 1) then (.ofText hash name.1, name.2) else readDelim input

theorem readHash_suffix (cs : List Char) : (readHash cs).2 <:+ cs := by
  simp only [readHash]
  split
  · exact (readName_suffix _).trans (List.drop_suffix 1 cs)
  · exact readDelim_suffix cs

def readAt (input : List Char) : Token × List Char :=
  let name := readName (input.drop 1)
  if startsName (input.drop 1) then (.ofText atKeyword name.1, name.2) else readDelim input

theorem readAt_suffix (cs : List Char) : (readAt cs).2 <:+ cs := by
  simp only [readAt]
  split
  · exact (readName_suffix _).trans (List.drop_suffix 1 cs)
  · exact readDelim_suffix cs

def startsPlainName : List Char -> Bool
  | c :: _ => isNameStart c
  | [] => false

def readBackslash (input : List Char) : Token × List Char :=
  if startsName input then readNameLike input
  else ((readDelim input).1.withError LexError.escape.message, (readDelim input).2)

theorem readBackslash_suffix (cs : List Char) : (readBackslash cs).2 <:+ cs := by
  rw [readBackslash]
  split
  · exact readNameLike_suffix cs
  · exact readDelim_suffix cs

/-!
## Strings and hidden parts
-/

def readQuoted : List Char -> Token × List Char
  | [] => (.bare badString, [])
  | quote :: cs =>
      let found := readString quote cs
      match found.error with
      | none => (.ofText string found.value, found.rest)
      | some e => ((Token.ofText badString found.value).withError e.message, found.rest)

theorem readQuoted_suffix (cs : List Char) : (readQuoted cs).2 <:+ cs := by
  cases cs with
  | nil => exact List.suffix_refl []
  | cons quote cs =>
      have hrest : (readString quote cs).rest <:+ quote :: cs :=
        (readString_suffix quote cs).trans (List.suffix_cons quote cs)
      simp only [readQuoted]
      split
      · exact hrest
      · exact hrest

def readLess (input : List Char) : Token × List Char :=
  if ['<', '!', '-', '-'].isPrefixOf input then (.bare cdo, input.drop 4) else readDelim input

theorem readLess_suffix (cs : List Char) : (readLess cs).2 <:+ cs := by
  rw [readLess]
  split
  · exact List.drop_suffix 4 cs
  · exact readDelim_suffix cs

/-!
## The dialect
-/

def blankScanner : Scanner :=
  .ofRead "whitespace" startsBlank readBlanks fun _ => List.dropWhile_suffix _

def punctuationScanner : Scanner :=
  .ofRead "punctuation" startsPunctuation readPunctuation readPunctuation_suffix

def plusScanner : Scanner :=
  .ofRead "plus" (startsWith '+') readNumberOrDelim readNumberOrDelim_suffix

def hyphenScanner : Scanner :=
  .ofRead "minus" (startsWith '-') readHyphen readHyphen_suffix

def digitScanner : Scanner :=
  .ofRead "digit" startsDigit readNumeric readNumeric_suffix

def pointScanner : Scanner :=
  .ofRead "period" (startsWith '.') readNumberOrDelim readNumberOrDelim_suffix

def hashScanner : Scanner :=
  .ofRead "hash" (startsWith '#') readHash readHash_suffix

def nameScanner : Scanner :=
  .ofRead "ident" startsPlainName readNameLike readNameLike_suffix

def stringScanner : Scanner :=
  .ofRead "string" startsQuote readQuoted readQuoted_suffix

def commentScanner : Scanner :=
  { id := "comment"
    claims := Text.startsComment
    scan := fun o input =>
      let found := Text.readComment (input.drop 2)
      { tokens := if o.keepComments then [.ofText comment found.1] else []
        rest := found.2
        rest_suffix := (Text.readComment_suffix _).trans (List.drop_suffix 2 input) } }

def lessScanner : Scanner :=
  .ofRead "less-than" (startsWith '<') readLess readLess_suffix

def atScanner : Scanner :=
  .ofRead "at" (startsWith '@') readAt readAt_suffix

def backslashScanner : Scanner :=
  .ofRead "reverse-solidus" (startsWith '\\') readBackslash readBackslash_suffix

def scanners : List Scanner :=
  [blankScanner, punctuationScanner, plusScanner, hyphenScanner, digitScanner, pointScanner,
    hashScanner, nameScanner, stringScanner, commentScanner, lessScanner, atScanner,
    backslashScanner]

/-- All line ends become line feeds, and a zero character becomes the replacement
character. -/
def prepare : List Char -> List Char
  | [] => []
  | '\r' :: '\n' :: cs => '\n' :: prepare cs
  | c :: cs =>
      (if c = '\r' ∨ c = '\x0C' then '\n' else if c = '\x00' then replacement else c) ::
        prepare cs

def dialect : Dialect :=
  { name := dialectName
    registry := Registry.core.adding dialectName kinds
    scanners := scanners
    fallback := delim
    prepare := prepare }

/-- The shared kinds and those of the dialect differ, so all of them can be registered. -/
example : Registry.core.registerAll kinds = (dialect.registry, none) := rfl

def tokenize (o : Options) (s : String) : List Token :=
  dialect.tokenize o s

end Css

end StyleTokens
