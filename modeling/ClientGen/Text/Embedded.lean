import ClientGen.Text.Quoted

/-!
# Text inside generated literals

Document text is written into documentation strings and into formatted strings of the generated code.
Both escape the backslash and the double quote; a formatted string doubles its braces as well.
-/

namespace ClientGen.Text

/-- A character inside a documentation string. -/
def docChar (c : Char) : List Char :=
  if c == backslash || c == doubleQuote then [backslash, c] else [c]

/-- A text inside a documentation string. -/
def docText (text : String) : String := .ofList (text.toList.flatMap docChar)

/-- A character inside a formatted string. -/
def formatChar (c : Char) : List Char :=
  if c == backslash || c == doubleQuote then [backslash, c]
  else if c == '\x7b' || c == '\x7d' then [c, c]
  else [c]

/-- A text inside a formatted string. -/
def formatText (cs : List Char) : List Char := cs.flatMap formatChar

end ClientGen.Text
