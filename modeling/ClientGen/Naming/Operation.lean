import ClientGen.Naming.Identifier
import ClientGen.Naming.Inflection

/-!
# Names of unnamed operations

An operation that its document does not name is named after its HTTP method and its path: a verb for
the method, then the literal segments of the path. A path of one segment uses the number of the noun,
so `GET /users` lists users and `GET /users/{id}` gets a user.
-/

namespace ClientGen.Naming

open ClientGen.Text

/-- A path segment as part of a snake-case name. Dots and dashes separate words; other foreign
characters are dropped. -/
def segmentWord (segment : String) : String :=
  let marked := (snakeChars segment.toList).map fun c => if c == '.' || c == '-' then '_' else c
  .ofList (trim (· == '_') (replaceRuns (· == '_') '_' (marked.filter isSnakeChar)))

/-- Drop `lead` from the front of the text, if it is there. -/
def dropLead (lead cs : List Char) : List Char :=
  if lead.isPrefixOf cs then cs.drop lead.length else cs

/-- Drop a version segment (`v`, digits, a slash) from the front of the text, if it is there. -/
def dropVersion (cs : List Char) : List Char :=
  match cs with
  | 'v' :: rest =>
    match rest.takeWhile isDecimal, rest.dropWhile isDecimal with
    | _ :: _, '/' :: after => after
    | _, _ => cs
  | _ => cs

/-- Is the segment a placeholder, or the beginning of one? -/
def isPlaceholderSegment (segment : List Char) : Bool := ['\x7b'].isPrefixOf segment

/-- The literal segments of a path, without a leading `api` segment and a version segment. -/
def literalSegments (path : String) : List String :=
  let bare := dropVersion (dropLead "api/".toList (dropLead ['/'] path.toList))
  ((splitOn '/' bare).filter fun s => !s.isEmpty && !isPlaceholderSegment s).map String.ofList

/-- Does a segment of the path start with a placeholder? -/
def hasPlaceholderSegment (path : String) : Bool :=
  (splitOn '/' path.toList).any isPlaceholderSegment

/-- The verb for an HTTP method in small letters. -/
def methodVerb (method : String) (hasPlaceholder : Bool) : String :=
  match method with
  | "get" => if hasPlaceholder then "get" else "list"
  | "post" => "create"
  | "put" => "update"
  | "patch" => "update"
  | other => other

/-- The name of an operation, from its method and path. -/
def operationName (method path : String) : String :=
  let hasPlaceholder := hasPlaceholderSegment path
  let verb := methodVerb (.ofList (lower method.toList)) hasPlaceholder
  match ((literalSegments path).map segmentWord).filter (· != "") with
  | [] => verb ++ "_root"
  | [noun] =>
    let noun :=
      if verb == "list" then plural noun
      else if hasPlaceholder || verb == "create" then singular noun
      else noun
    verb ++ "_" ++ noun
  | nouns => verb ++ "_" ++ "_".intercalate nouns

end ClientGen.Naming
