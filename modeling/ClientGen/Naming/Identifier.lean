import ClientGen.Naming.Keyword
import ClientGen.Text.Case
import ClientGen.Text.Class
import ClientGen.Text.Run

/-!
# Identifiers from document text

Names in an API description are arbitrary text. This module turns them into identifiers of the
generated code: `snake` and `pascal` change the casing, `identifier` drops what an identifier cannot
hold and guards its first character, and the functions below them fix the form of each kind of
generated name.
-/

namespace ClientGen.Naming

open ClientGen.Text

/-- Put an underscore before the last capital of a run of capitals that a small letter follows:
`HTTPServer` becomes `HTTP_Server`. -/
def splitAcronyms : List Char → List Char
  | a :: b :: c :: rest =>
    if a.isUpper && b.isUpper && c.isLower then a :: '_' :: splitAcronyms (b :: c :: rest)
    else a :: splitAcronyms (b :: c :: rest)
  | short => short

/-- Put an underscore between a small letter or digit and a capital: `getUser` becomes `get_User`. -/
def splitHumps : List Char → List Char
  | a :: b :: rest =>
    if (a.isLower || isDecimal a) && b.isUpper then a :: '_' :: splitHumps (b :: rest)
    else a :: splitHumps (b :: rest)
  | short => short

/-- The characters of the snake-case form of a name. -/
def snakeChars (cs : List Char) : List Char := lower (splitHumps (splitAcronyms cs))

/-- The snake-case form of a camel-case name. -/
def snake (name : String) : String := .ofList (snakeChars name.toList)

/-- Capitalise an ASCII word. -/
def capitalize : List Char → List Char
  | [] => []
  | c :: rest => c.toUpper :: rest

/-- The ASCII words of a text, each capitalised, written together: `get_user-list` becomes
`GetUserList`. -/
def pascal (value : String) : String :=
  .ofList ((wordsOf Char.isAlphanum value.toList).flatMap capitalize)

/-- Make the first character of an ASCII name small. -/
def uncapitalize (name : String) : String :=
  match name.toList with
  | [] => ""
  | c :: rest => .ofList (c.toLower :: rest)

/-- The camel-case form of a text. -/
def camel (value : String) : String := uncapitalize (pascal value)

/-- Does the text start with an ASCII digit? -/
def startsWithDigit (cs : List Char) : Bool :=
  match cs with
  | [] => false
  | c :: _ => c.isDigit

/-- Keep the characters an identifier may hold. A name that would be empty or start with a digit gets
`guard` before it. -/
def identifier (value guard : String) : String :=
  let kept := value.toList.filter isIdentifierChar
  if kept.isEmpty || startsWithDigit kept then guard ++ .ofList kept else .ofList kept

/-- The small letters, the digits and the underscore. -/
def isSnakeChar (c : Char) : Bool := c.isLower || c.isDigit || c == '_'

/-- Names that a method of the generated code binds itself. -/
def reservedArguments : List String := ["self", "cls"]

/-- The name of an argument or attribute for a parameter: its snake-case form with everything else
written as single underscores. The word `value` stands in for a name without letters and digits, a
leading digit gets an underscore before it and a reserved word gets one after it. -/
def argumentName (name : String) : String :=
  let marked := trim (· == '_') (replaceRuns (! isSnakeChar ·) '_' (snakeChars name.toList))
  let word := replaceRuns (· == '_') '_' marked
  let word := if word.isEmpty then "value".toList else word
  let word := if startsWithDigit word then '_' :: word else word
  let word := String.ofList word
  if isKeyword word || reservedArguments.contains word then word ++ "_" else word

/-- The class name made of the words of a text. -/
def className (value : String) (guard : String) : String := identifier (pascal value) guard

/-- The class of the resource that holds a collection. -/
def resourceClass (collection : String) : String := className collection "Resource"

/-- Attributes of the class that generated resources extend. -/
def reservedMethods : List String := ["connector"]

/-- The method of a resource that calls an endpoint. -/
def methodName (endpointName : String) : String :=
  let name := uncapitalize (identifier (camel endpointName) "call")
  if isKeyword name || reservedMethods.contains name then name ++ "_" else name

/-- The class of a request, which always ends in `Request`. -/
def requestClass (name : String) : String :=
  let name := className name "Request"
  if name.endsWith "Request" then name else name ++ "Request"

/-- The class of a data transfer object, named after a component schema. -/
def dtoClass (schemaName : String) : String := identifier schemaName "Dto"

end ClientGen.Naming
