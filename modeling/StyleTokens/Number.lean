import StyleTokens.Number.Numeral
import StyleTokens.Number.Shortest

/-!
# Numbers

The value of a numeric token: a 64-bit integer, or a binary64 number when it was
written with a point or an exponent or does not fit.
-/

namespace StyleTokens

/-- The value of a numeric token. -/
inductive Number where
  | integer (value : Int64)
  | float (value : Binary64)
  deriving DecidableEq, Repr

namespace Number

/-- Read a number.  A text that asks for an integer still becomes a float when it
is no integer of 64 bits. -/
def read? (cs : List Char) (whole : Bool) : Option Number :=
  match if whole then Numeral.integer? cs else none with
  | some n => some (integer n)
  | none => (Numeral.binary64? cs).map float

def toBinary64 : Number -> Binary64
  | integer n => Binary64.ofInt n.toInt
  | float x => x

def isInteger : Number -> Bool
  | integer _ => true
  | float _ => false

def text : Number -> String
  | integer n => toString n.toInt
  | float x => x.text

def same : Number -> Number -> Bool
  | integer a, integer b => a == b
  | float x, float y => x.same y
  | _, _ => false

def quoted : Number -> String
  | integer n => "Integer(" ++ toString n.toInt ++ ")"
  | float x =>
      "Float(" ++
        (match x with
          | .infinite negative => if negative then "-inf" else "inf"
          | _ => x.text) ++
        ")"

end Number

end StyleTokens
