import ClientGen.Api.Description
import ClientGen.Schema.Kind

/-!
# Parameters

A parameter of an endpoint, in any of its slots. Names come from the document unchecked, so a name can
be any value there; it is a text in every sensible document.
-/

namespace ClientGen.Api

open ClientGen.Document

/-- A parameter. An inline object keeps its properties; a parameter that stands for one property of a
referenced object knows the property it was taken out of. -/
structure Parameter where
  kind : Schema.Kind
  nullable : Bool
  name : Value
  description : Option String := none
  enumValues : Option (List Value) := none
  properties : List Parameter := []
  parent : Option Value := none

namespace Parameter

/-- Does the parameter list its values? -/
def hasEnum (p : Parameter) : Bool := !(p.enumValues.getD []).isEmpty

/-- Does one of the parameters have the name? -/
def named (ps : List Parameter) (name : Value) : Bool := ps.any (·.name == name)

end Parameter

/-- A description in a document, cleaned; nothing if it is no text. -/
def cleanDescription? : Option Value → Option String
  | some (.str s) => cleanText? s
  | _ => none

end ClientGen.Api
