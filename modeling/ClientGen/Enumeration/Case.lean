import ClientGen.Text.Case
import ClientGen.Text.Md5
import ClientGen.Text.Run

/-!
# Names of enumeration members

A literal value is named by its text in upper case, with underscores for everything that is no ASCII
letter or digit. A text without letters and digits is named by its digest.
-/

namespace ClientGen.Enumeration

open ClientGen.Text

/-- A character of a member name other than the underscore. -/
def isCaseChar (c : Char) : Bool := c.isUpper || c.isDigit

/-- The member name for a literal with the given text. -/
def caseName (text : String) : String :=
  match trim (· == '_') (replaceRuns (! isCaseChar ·) '_' (upper text.toList)) with
  | [] => "VALUE_" ++ .ofList (upper (Md5.hexDigest text))
  | c :: rest => if c.isDigit then .ofList ('_' :: c :: rest) else .ofList (c :: rest)

end ClientGen.Enumeration
