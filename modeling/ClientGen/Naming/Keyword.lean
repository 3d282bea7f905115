/-!
# Reserved words of the generated code

The words that a generated name may not be, because the language of the generated code reserves them.
-/

namespace ClientGen.Naming

/-- The reserved words of the generated code's language. -/
def keywords : List String := [
  "False", "None", "True", "and", "as", "assert", "async", "await", "break", "class", "continue",
  "def", "del", "elif", "else", "except", "finally", "for", "from", "global", "if", "import", "in",
  "is", "lambda", "nonlocal", "not", "or", "pass", "raise", "return", "try", "while", "with", "yield"]

/-- Is the word reserved? -/
def isKeyword (word : String) : Bool := keywords.contains word

end ClientGen.Naming
