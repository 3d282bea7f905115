import ClientGen.Text.Case
import ClientGen.Text.Class
import ClientGen.Text.Run

/-!
# HTTP methods
-/

namespace ClientGen.Api

open ClientGen.Text

/-- The methods an endpoint can have. -/
inductive Method where
  | connect | delete | get | head | options | patch | post | put | trace
  deriving DecidableEq, Repr

namespace Method

/-- All methods. -/
def all : List Method := [.connect, .delete, .get, .head, .options, .patch, .post, .put, .trace]

/-- The method's name as it is sent. -/
def name : Method → String
  | connect => "CONNECT"
  | delete => "DELETE"
  | get => "GET"
  | head => "HEAD"
  | options => "OPTIONS"
  | patch => "PATCH"
  | post => "POST"
  | put => "PUT"
  | trace => "TRACE"

/-- The method of a name, in any case and with blanks around it. -/
def ofName? (text : String) : Option Method :=
  let wanted := String.ofList (upper (trim isBlank text.toList))
  all.find? (·.name == wanted)

/-- Do requests with this method carry a body? -/
def hasBody : Method → Bool
  | post | put | patch => true
  | _ => false

end Method

end ClientGen.Api
