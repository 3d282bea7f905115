import ClientGen.Document.Value

/-!
# References in schemas

A reference that was expanded leaves its pointer under `originKey` in the expanded node; one that was
not stays under `$ref`. Either way the node names the component schema that it refers to.
-/

namespace ClientGen.Schema

open ClientGen.Document

/-- The key under which an expanded node keeps the pointer it was expanded from. -/
def originKey : String := "x-sdkgen-ref"

/-- The key of a reference. -/
def refKey : String := "$ref"

/-- What the pointers to component schemas start with. -/
def schemaPointer : String := "#/components/schemas/"

/-- The reference that a node holds in place of other content, if it is one. -/
def openRef? (v : Value) : Option String :=
  match v.field? refKey with
  | some (.str ref) => some ref
  | _ => none

/-- Is the node a reference that was left in place? -/
def isOpen (v : Value) : Bool := (openRef? v).isSome

/-- The rest of a pointer to a component schema. -/
def pointedName? (pointer : String) : Option String :=
  if pointer.startsWith schemaPointer then
    some (.ofList (pointer.toList.drop schemaPointer.length))
  else none

/-- The name of the component schema that a node refers to, directly or by its origin. -/
def referenceName? (v : Value) : Option String :=
  match Value.orElse (v.field? originKey) ((v.field? refKey).getD .null) with
  | .str pointer => pointedName? pointer
  | _ => none

/-- Does the node refer to a component schema with a name? -/
def isReference (v : Value) : Bool := ((referenceName? v).filter (· != "")).isSome

end ClientGen.Schema
