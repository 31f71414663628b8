import StyleTokens.Encoding
import StyleTokens.Kind.Registry

/-!
# Kinds of data documents

The kinds of the tokens of a data document in the JSON5 notation.
-/

namespace StyleTokens
namespace Json5

def dialectName : String := "json5"

def openArray : Kind := { dialect := dialectName, name := "[", raw := some "[" }
def closeArray : Kind := { dialect := dialectName, name := "]", raw := some "]" }
def openObject : Kind := { dialect := dialectName, name := "\x7b", raw := some "\x7b" }
def closeObject : Kind := { dialect := dialectName, name := "\x7d", raw := some "\x7d" }
def comma : Kind := { dialect := dialectName, name := "comma", raw := some "," }
def colon : Kind := { dialect := dialectName, name := "colon", raw := some ":" }
def boolean : Kind := { dialect := dialectName, name := "boolean" }
def null : Kind := { dialect := dialectName, name := "null", raw := some "null" }
def string : Kind := { dialect := dialectName, name := "string", encoder := Encoding.writeLiteral }
def badString : Kind :=
  { dialect := dialectName, name := "bad-string", faulty := true, encoder := Encoding.writeLiteral }
def number : Kind := { dialect := dialectName, name := "number" }
def badNumber : Kind := { dialect := dialectName, name := "bad-number", faulty := true }
def ident : Kind := { dialect := dialectName, name := "ident" }
def whitespace : Kind :=
  { dialect := dialectName, name := "whitespace", blank := true, raw := some " " }

def kinds : List Kind :=
  [openArray, closeArray, openObject, closeObject, comma, colon, boolean, null, string,
    badString, number, badNumber, ident, whitespace]

end Json5
end StyleTokens
