/-!
# Parameter slots
-/

namespace ClientGen.Api

/-- Where a parameter travels in a request. -/
inductive Slot where
  | path | query | body | header
  deriving DecidableEq, Repr

namespace Slot

/-- The slot's name. -/
def name : Slot → String
  | path => "path"
  | query => "query"
  | body => "body"
  | header => "header"

/-- The slots in the order in which parameters are gone through. -/
def all : List Slot := [path, query, body, header]

/-- The slots in the order in which arguments are passed. -/
def passing : List Slot := [path, body, query, header]

end Slot

end ClientGen.Api
