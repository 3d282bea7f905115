/-!
# Lines

Cutting a text into lines at every line boundary of Unicode, and indenting all lines but the first.
-/

namespace ClientGen.Text

/-- The characters that end a line. A carriage return with a line feed after it ends one line. -/
def isLineEnd (c : Char) : Bool :=
  ['\n', '\r', '\x0b', '\x0c', '\x1c', '\x1d', '\x1e', '\u0085', '\u2028', '\u2029'].contains c

/-- The lines of a text. An ending at the end of the text starts no further line. -/
def lines : List Char → List (List Char)
  | [] => []
  | '\r' :: '\n' :: rest => [] :: lines rest
  | c :: rest =>
    if isLineEnd c then [] :: lines rest
    else
      match lines rest with
      | [] => [[c]]
      | line :: more => (c :: line) :: more

/-- The text with every line after the first moved in by `margin`. Empty lines stay empty. -/
def indentRest (margin : String) (text : String) : String :=
  match lines (text.toList ++ ['\n']) with
  | [] => ""
  | first :: rest =>
    "\n".intercalate (.ofList first ::
      rest.map fun line => if line.isEmpty then "" else margin ++ .ofList line)

end ClientGen.Text
