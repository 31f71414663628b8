import StyleTokens.Css.Character
import StyleTokens.Text.Ascii

/-!
# Encodings

How the decoded text of a token is written as source.  The writers work on runs
of characters; each writes its text so that it is read back as one token.
-/

namespace StyleTokens
namespace Encoding

/-!
## Escapes of style sheets
-/

/-- The character by its number; the blank behind it ends the escape. -/
def hexEscape (c : Char) : List Char :=
  ['\\'] ++ Text.hexText c.toNat ++ [' ']

/-- Can no plain backslash escape the character?  A backslash before a line feed
is no escape, and other controls are kept visible. -/
def needsNumber (c : Char) : Bool :=
  c == '\n' || (Text.isControl c && c != '\t')

def nameChar (c : Char) : List Char :=
  if needsNumber c then hexEscape c
  else if Css.isNameChar c then [c]
  else ['\\', c]

def nameStart (c : Char) : List Char :=
  if c.isDigit then hexEscape c else nameChar c

/-- A name that could be read as a number, or as a lone hyphen, has its leading
character escaped. -/
def writeName : List Char -> List Char
  | [] => []
  | ['-'] => ['\\', '-']
  | '-' :: c :: cs => '-' :: nameStart c ++ cs.flatMap nameChar
  | c :: cs => nameStart c ++ cs.flatMap nameChar

def hashName (cs : List Char) : List Char :=
  cs.flatMap nameChar

def quotedChar (c : Char) : List Char :=
  if c = '"' then ['\\', '"']
  else if c = '\\' then ['\\', '\\']
  else if c = '\n' then ['\\', 'a', ' ']
  else [c]

def writeQuoted (cs : List Char) : List Char :=
  ['"'] ++ cs.flatMap quotedChar ++ ['"']

def isAddressMark (c : Char) : Bool :=
  c == '(' || c == ')' || c == '"' || c == '\'' || c == '\\'

def addressChar (c : Char) : List Char :=
  if isAddressMark c then ['\\', c]
  else if needsNumber c then hexEscape c
  else if c = ' ' ∨ c = '\t' then ['\\', c]
  else [c]

def writeAddress (cs : List Char) : List Char :=
  ['u', 'r', 'l', '('] ++ cs.flatMap addressChar ++ [')']

def writeComment (cs : List Char) : List Char :=
  ['/', '*'] ++ cs ++ ['*', '/']

/-!
## Escapes of data documents
-/

def literalChar (c : Char) : List Char :=
  if c = '"' then ['\\', '"']
  else if c = '\\' then ['\\', '\\']
  else if c = '\n' then ['\\', 'n']
  else if c = '\r' then ['\\', 'r']
  else if c = '\t' then ['\\', 't']
  else [c]

def writeLiteral (cs : List Char) : List Char :=
  ['"'] ++ cs.flatMap literalChar ++ ['"']

/-!
## Names with what stands around them
-/

def writeCall (cs : List Char) : List Char := writeName cs ++ ['(']

def writeHash (cs : List Char) : List Char := '#' :: hashName cs

def writeAtName (cs : List Char) : List Char := '@' :: writeName cs

end Encoding

end StyleTokens
