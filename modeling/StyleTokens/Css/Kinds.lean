import StyleTokens.Encoding
import StyleTokens.Kind.Registry
import StyleTokens.Token

/-!
# Kinds of style sheets

The kinds of the tokens of a style sheet.  Blocks and calls are read from runs of
other tokens and have kinds of their own.
-/

namespace StyleTokens
namespace Css

def dialectName : String := "css"

def string : Kind := { dialect := dialectName, name := "string", encoder := Encoding.writeQuoted }
def badString : Kind :=
  { dialect := dialectName, name := "bad-string", faulty := true, encoder := Encoding.writeQuoted }
def ident : Kind := { dialect := dialectName, name := "ident", encoder := Encoding.writeName }
def function : Kind := { dialect := dialectName, name := "function", encoder := Encoding.writeCall }
def url : Kind := { dialect := dialectName, name := "url", encoder := Encoding.writeAddress }
def badUrl : Kind :=
  { dialect := dialectName, name := "bad-url", faulty := true, encoder := Encoding.writeAddress }
def whitespace : Kind :=
  { dialect := dialectName, name := "whitespace", blank := true, raw := some " " }
def comment : Kind :=
  { dialect := dialectName, name := "comment", blank := true, encoder := Encoding.writeComment }
def hash : Kind := { dialect := dialectName, name := "hash", encoder := Encoding.writeHash }
def delim : Kind := { dialect := dialectName, name := "delim" }
def number : Kind := { dialect := dialectName, name := "number" }
def dimension : Kind := { dialect := dialectName, name := "dimension" }
def percentage : Kind := { dialect := dialectName, name := "percentage" }
def badNumber : Kind := { dialect := dialectName, name := "bad-number", faulty := true }
def cdo : Kind := { dialect := dialectName, name := "cdo", raw := some "<!--" }
def cdc : Kind := { dialect := dialectName, name := "cdc", raw := some "-->" }
def atKeyword : Kind :=
  { dialect := dialectName, name := "at-keyword", encoder := Encoding.writeAtName }
def semicolon : Kind := { dialect := dialectName, name := "semicolon", raw := some ";" }
def colon : Kind := { dialect := dialectName, name := "colon", raw := some ":" }
def comma : Kind := { dialect := dialectName, name := "comma", raw := some "," }
def openParen : Kind := { dialect := dialectName, name := "(", raw := some "(" }
def closeParen : Kind := { dialect := dialectName, name := ")", raw := some ")" }
def openBracket : Kind := { dialect := dialectName, name := "[", raw := some "[" }
def closeBracket : Kind := { dialect := dialectName, name := "]", raw := some "]" }
def openBrace : Kind := { dialect := dialectName, name := "\x7b", raw := some "\x7b" }
def closeBrace : Kind := { dialect := dialectName, name := "\x7d", raw := some "\x7d" }

/-- A block that was read from a run of tokens. -/
def simpleBlock : Kind := { dialect := dialectName, name := "simple-block" }

/-- A call that was read from a run of tokens. -/
def functionBlock : Kind := { dialect := dialectName, name := "function-block" }

def kinds : List Kind :=
  [string, badString, ident, function, url, badUrl, whitespace, comment, hash, delim, number,
    dimension, percentage, badNumber, cdo, cdc, atKeyword, semicolon, colon, comma, openParen,
    closeParen, openBracket, closeBracket, openBrace, closeBrace, simpleBlock, functionBlock]

def closingOf? (k : Kind) : Option Kind :=
  if k.same openBrace then some closeBrace
  else if k.same openBracket then some closeBracket
  else if k.same openParen then some closeParen
  else none

def isClosing (k : Kind) : Bool :=
  k.same closeBrace || k.same closeBracket || k.same closeParen

def isDelim (t : Token) (c : Char) : Bool :=
  t.isChar delim c

end Css

namespace Block

def toToken (b : Block) : Token :=
  { kind := Css.simpleBlock, payload := .block b, location := b.location, error := none }

end Block

namespace Call

def toToken (c : Call) : Token :=
  { kind := Css.functionBlock, payload := .call c, location := c.location, error := none }

end Call

end StyleTokens
