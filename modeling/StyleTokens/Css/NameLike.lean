import StyleTokens.Css.Enclosed
import StyleTokens.Css.Kinds
import StyleTokens.Css.Name

/-!
# Tokens that start with a name

A name is an identifier, the name of a function if a parenthesis follows, or the
start of an unquoted address if that function is called `url` and no quote
follows.
-/

namespace StyleTokens
namespace Css

def startsQuote : List Char -> Bool
  | c :: _ => c == '"' || c == '\''
  | [] => false

/-- Read the address behind `url(`. -/
def addressToken (input : List Char) : Token × List Char :=
  let found := readAddress (input.dropWhile isBlank)
  match found.error with
  | none => (.ofText url found.value, found.rest)
  | some e => ((Token.ofText badUrl found.value).withError e.message, found.rest)

def readNameLike (input : List Char) : Token × List Char :=
  let name := readName input
  match name.2 with
  | '(' :: rest =>
      if Text.sameFolded (String.ofList name.1) "url" && !startsQuote (rest.dropWhile isBlank) then
        addressToken rest
      else (.ofText function name.1, rest)
  | rest => (.ofText ident name.1, rest)

theorem addressToken_suffix (cs : List Char) : (addressToken cs).2 <:+ cs := by
  have hrest : (readAddress (cs.dropWhile isBlank)).rest <:+ cs :=
    (readAddress_suffix _).trans (List.dropWhile_suffix _)
  simp only [addressToken]
  split
  · exact hrest
  · exact hrest

theorem readNameLike_suffix (cs : List Char) : (readNameLike cs).2 <:+ cs := by
  have hname := readName_suffix cs
  simp only [readNameLike]
  split
  · rename_i rest h
    have hrest : rest <:+ cs := (List.suffix_cons '(' rest).trans (h ▸ hname)
    split
    · exact (addressToken_suffix rest).trans hrest
    · exact hrest
  · exact hname

end Css
end StyleTokens
