import StyleTokens.Text.Blank

/-!
# Arguments

Switches that every strategy of one reading sees.  Flags are kept as a list
without repetitions.
-/

namespace StyleTokens

/-- Switches for reading. -/
structure Args where
  /-- Do strings keep their quotes and escapes? -/
  quoteStrings : Bool := false
  /-- Further switches. -/
  flags : List String := []
  deriving DecidableEq, Repr

namespace Args

def dropHyphens (s : String) : String :=
  String.ofList (s.toList.dropWhile fun c => c == '-')

def quoteStringsFlag : String := "quote-strings"

def withFlag (a : Args) (flag : String) : Args :=
  if a.flags.contains flag then a else { a with flags := a.flags ++ [flag] }

def withQuoteStrings (a : Args) (quote : Bool) : Args := { a with quoteStrings := quote }

/-- Add a flag as a command line gives it: blanks around it and hyphens in front
of it do not count, and an empty one is left out. -/
def withSwitch (a : Args) (switch : String) : Args :=
  let flag := dropHyphens (Text.trim switch)
  if flag = "" then a
  else if flag = quoteStringsFlag then a.withQuoteStrings true
  else a.withFlag flag

def ofSwitches (switches : List String) : Args := switches.foldl withSwitch {}

/-- Is a flag set?  Hyphens in front of it do not count. -/
def hasFlag (a : Args) (flag : String) : Bool := a.flags.contains (dropHyphens flag)

end Args

end StyleTokens
