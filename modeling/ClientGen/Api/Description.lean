import ClientGen.Text.Class
import ClientGen.Text.Run

/-!
# Descriptions

Descriptions in a document may hold markup and any line breaks. A clean description has neither.
-/

namespace ClientGen.Api

open ClientGen.Text

/-- After an opening angle bracket: does a tag follow, some text up to a closing bracket? -/
def closesTag : List Char → Bool
  | [] => false
  | c :: rest => c != '>' && rest.contains '>'

/-- Remove all tags. -/
def dropTags : List Char → List Char
  | [] => []
  | c :: rest =>
    if c == '<' && closesTag rest then dropTags (rest.dropWhile (· != '>')).tail
    else c :: dropTags rest
termination_by cs => cs.length
decreasing_by
  · have h := (List.dropWhile_sublist (l := rest) (· != '>')).length_le
    simp only [List.length_tail, List.length_cons]
    omega
  · simp

/-- The text without tags, with single spaces for blanks between words and no blanks around it;
nothing if no text remains. -/
def cleanText? (text : String) : Option String :=
  match trim isBlank (replaceRuns isBlank ' ' (dropTags text.toList)) with
  | [] => none
  | cs => some (.ofList cs)

end ClientGen.Api
